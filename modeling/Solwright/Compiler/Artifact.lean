import Solwright.Text.Hex
import Solwright.Json.Basic

/-!
What a compilation leaves behind for one contract, and what it costs to deploy it.
-/

namespace Solwright

open Solwright.Text

def codeSizeLimit : Nat := 24576

def baseTransactionGas : Nat := 21000

/-- Gas for each byte of code where the compiler gives no estimate. -/
def gasPerByte : Nat := 200

/-- The gas for deploying code: the sum of the compiler's two costs where it gives both, else an
approximation by the size of the code. -/
def deploymentGas (bytecode : String) (depositCost executionCost : Option Int) : Int :=
  match depositCost, executionCost with
  | some deposit, some execution => deposit + execution
  | _, _ =>
    let digits := (dropHexMark bytecode.toList).length
    if digits = 0 then 0 else (baseTransactionGas + gasPerByte * ((digits + 1) / 2) : Nat)

structure Artifact where
  contractName : RawText
  sourceName : RawText
  bytecode : Option String
  deployedBytecode : Option String
  abi : Json
  gasEstimate : Int
  depositCost : Option Int
  executionCost : Option Int
  methodIdentifiers : Json
  gasEstimates : Json
  linkReferences : Json
  deployedLinkReferences : Json
  developerDocs : Json
  userDocs : Json
  warnings : List Json

namespace Artifact

def size (a : Artifact) : Nat :=
  let digits := match (a.deployedBytecode.getD "").toList with
    | '0' :: 'x' :: s => s
    | s => s
  digits.length / 2

def tooLarge (a : Artifact) : Bool :=
  codeSizeLimit < a.size

def report (a : Artifact) : List (RawText × Json) :=
  [("success", .bool true), ("bytecode", .text? a.bytecode), ("abi", a.abi),
   ("gasEstimate", .int a.gasEstimate), ("warnings", .arr a.warnings),
   ("compilationTarget", (a.sourceName ++ ":" ++ a.contractName).json),
   ("artifacts", .obj
    [("contractName", a.contractName.json), ("sourceName", a.sourceName.json), ("abi", a.abi),
     ("bytecode", .text? a.bytecode), ("deployedBytecode", .text? a.deployedBytecode),
     ("linkReferences", a.linkReferences), ("deployedLinkReferences", a.deployedLinkReferences),
     ("methodIdentifiers", a.methodIdentifiers), ("gasEstimates", a.gasEstimates),
     ("devdoc", a.developerDocs), ("userdoc", a.userDocs)])]

end Artifact

end Solwright
