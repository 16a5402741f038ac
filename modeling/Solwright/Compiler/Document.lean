import Solwright.Composition

/-!
The document that a compiler is given.
-/

namespace Solwright

/-- What a compiler is asked to do: the source units, how to optimise, and the machine to compile
for. -/
structure Document where
  units : List (RawText × RawText)
  optimize : Bool
  runs : Int
  machine : RawText

namespace Document

def ofSource (contractName source : RawText) (optimize : Bool) (runs : Int) (machine : RawText) :
    Document :=
  ⟨[(sourceName contractName, source)], optimize, runs, machine⟩

def selection : List String :=
  ["abi", "evm.bytecode", "evm.deployedBytecode", "evm.methodIdentifiers", "evm.gasEstimates",
   "devdoc", "userdoc"]

def json (d : Document) : Json :=
  .obj
    [("language", .str "Solidity"),
     ("sources", .obj (d.units.map fun u => (u.1, .obj [("content", u.2.json)]))),
     ("settings", .obj
      [("optimizer", .obj [("enabled", .bool d.optimize), ("runs", .int d.runs)]),
       ("outputSelection", .obj [("*", .obj [("*", .texts selection)])]),
       ("evmVersion", d.machine.json), ("remappings", .arr [])])]

end Document

end Solwright
