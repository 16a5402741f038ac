import Solwright.Compiler.Artifact
import Solwright.Fault
import Solwright.Log
import Solwright.Number.Integer
import Solwright.Source.Structure

/-!
What a compiler puts out, and the artifact of the contract that was asked for. Fatal diagnostics
come before everything else; a contract that is not there is replaced by the last one that the
source declares, unless the match has to be exact.
-/

namespace Solwright

open Solwright.Number Solwright.Text

structure Diagnostic where
  severity : Option String
  message : Json

/-- The output of a compiler: its diagnostics, and what stands in it for the contracts, which is meant
to be an object of the source units with an object of the contracts of each. -/
structure Output where
  diagnostics : List Diagnostic
  contracts : Json

/-- A diagnostic read from data, which has to be an object. The formatted message is preferred. -/
def Diagnostic.ofJson (v : Json) : Except Fault Diagnostic := do
  let severity := match ← v.member "severity" with
    | .str s => some s
    | _ => none
  let formatted ← v.member "formattedMessage"
  let plain ← v.member "message"
  return ⟨severity, if formatted.isTrue then formatted else if plain.isTrue then plain else .str ""⟩

namespace Output

def ofJson (v : Json) : Except Fault Output := do
  let diagnostics ← (← (← v.member "errors").elementsOrNone).mapM Diagnostic.ofJson
  return ⟨diagnostics, ← v.member "contracts"⟩

def messages (o : Output) (severity : String) : List Json :=
  (o.diagnostics.filter (·.severity == some severity)).map (·.message)

def fatal (o : Output) : List Json :=
  o.messages "error"

def warnings (o : Output) : List Json :=
  o.messages "warning"

/-- The contracts compiled from a source unit. There are none where nothing that counts as yes stands
in their place. -/
def compiled (o : Output) (unit : RawText) : Except Fault (List (RawText × Json)) :=
  (o.contracts.orObject.member unit).bind fun
    | .obj ms => .ok ms
    | v => if v.isTrue then .error .wrongKind else .ok []

/-- A cost that the compiler gives, where it gives one. A cost beyond all numbers is a fault. -/
def cost? : Json → Except Fault (Option Int)
  | .int n => .ok (some n)
  | .bool b => .ok (some (if b then 1 else 0))
  | .float (.finite s m e _) => .ok (some (Binary64.truncate s m e))
  | .float (.infinite _) => .error .tooLarge
  | .str s => .ok (readInteger s.toList).toOption
  | _ => .ok none

def creationCosts (creation : Json) : Except Fault (Option (Int × Int)) :=
  match creation.get? "codeDepositCost", creation.get? "executionCost" with
  | some deposit, execution =>
    match cost? deposit with
    | .error f => .error f
    | .ok none => .ok none
    | .ok (some d) =>
      match cost? (execution.getD .null) with
      | .error f => .error f
      | .ok none => .ok none
      | .ok (some x) => .ok (some (d, x))
  | none, _ => .ok none

def marked? (digits : String) : Option String :=
  if digits.isEmpty then none else some (String.ofList (withHexMark digits.toList))

def digitsOf (v : Json) : Except Fault String :=
  match v with
  | .str s => .ok s
  | v => if v.isTrue then .error .wrongKind else .ok ""

/-- The description of a contract, which has to have elements; it is empty where there is nothing in
its place. -/
def descriptionOf (v : Json) : Except Fault Json :=
  if v.isTrue then v.elements.map fun _ => v else .ok (.arr [])

def artifact (unit contractName : RawText) (warnings : List Json) (entry : Json) :
    Except Fault Artifact := do
  let machine := (← entry.member "evm").orObject
  let code := (← machine.member "bytecode").orObject
  let deployed := (← machine.member "deployedBytecode").orObject
  let codeObject ← code.member "object"
  let deployedObject ← deployed.member "object"
  let estimates := (← machine.member "gasEstimates").orObject
  let costs ← creationCosts (← estimates.member "creation")
  let digits ← digitsOf codeObject
  let deployedDigits ← digitsOf deployedObject
  return {
    contractName := contractName
    sourceName := unit
    bytecode := marked? digits
    deployedBytecode := marked? deployedDigits
    abi := ← descriptionOf (← entry.member "abi")
    gasEstimate := deploymentGas digits (costs.map (·.1)) (costs.map (·.2))
    depositCost := costs.map (·.1)
    executionCost := costs.map (·.2)
    methodIdentifiers := (← machine.member "methodIdentifiers").orObject
    gasEstimates := estimates
    linkReferences := (← code.member "linkReferences").orObject
    deployedLinkReferences := (← deployed.member "linkReferences").orObject
    developerDocs := (← entry.member "devdoc").orObject
    userDocs := (← entry.member "userdoc").orObject
    warnings := warnings }

/-- The last contract that a source declares among those compiled, else the last one compiled. -/
def lastDeclared (source : String) (compiled : List RawText) : RawText :=
  let declared := (Source.declarations source.toList).map fun n => .formed (String.ofList n)
  ((declared.filter compiled.contains).getLast?.or compiled.getLast?).getD ""

/-- The contract to take where some were compiled: the one asked for, or where the match need not be
exact the last declared. -/
def choose (unit contractName : RawText) (strict : Bool) (source : String)
    (compiled : List RawText) : Except Failure RawText :=
  if compiled.contains contractName then .ok contractName
  else if strict then
    .error (.contractNotFound ("Contract " ++ contractName ++ " not found in " ++ unit ++
      " (defined: " ++ RawText.joined ", " compiled ++ ")"))
  else .ok (lastDeclared source compiled)

def select (unit contractName : RawText) (strict : Bool) (source : String)
    (compiled : List RawText) : Except Failure RawText :=
  if compiled.isEmpty then
    .error (.contractNotFound ("Contract " ++ contractName ++ " not found in compilation output"))
  else choose unit contractName strict source compiled

def take (o : Output) (unit contractName : RawText) (compiled : List (RawText × Json))
    (chosen : RawText) : Except Fault Artifact × List LogRecord :=
  (artifact unit chosen o.warnings ((compiled.lookup chosen).getD .null),
    if (compiled.map (·.1)).contains contractName then []
    else [⟨.warning, "Contract " ++ contractName ++ " not found in " ++ unit ++ ", using " ++ chosen⟩])

def read (o : Output) (unit contractName : RawText) (strict : Bool) (source : String) :
    Except Fault Artifact × List LogRecord :=
  if o.fatal.isEmpty then
    match o.compiled unit with
    | .error f => (.error f, [])
    | .ok compiled =>
      match select unit contractName strict source (compiled.map (·.1)) with
      | .error f => (.error (.failure f), [])
      | .ok chosen => o.take unit contractName compiled chosen
  else
    (.error (.failure (.diagnosed o.fatal o.warnings)),
      [⟨.error, "Fatal compilation errors for " ++ contractName ++ ": " ++
        String.ofList (Json.arr o.fatal).quotedForm⟩])

def readJson (v : Json) (unit contractName : RawText) (strict : Bool) (source : String) :
    Except Fault Artifact × List LogRecord :=
  match ofJson v with
  | .ok o => o.read unit contractName strict source
  | .error f => (.error f, [])

end Output

end Solwright
