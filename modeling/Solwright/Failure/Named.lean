import Solwright.Fault

/-!
Failures told by their name and by what is said about them. Most failures take any number of things
and are worded by all of them; a few have a form of their own.
-/

namespace Solwright.Failure

def textsOf? : List Json → Option (List RawText)
  | [] => some []
  | .str s :: vs => (textsOf? vs).map (.formed s :: ·)
  | .illFormed codes :: vs => (textsOf? vs).map (.illFormed codes :: ·)
  | _ => none

/-- What is said about a failure, as one text: nothing, the thing itself, or a list of all. -/
def reasonOf : List Json → RawText
  | [] => ""
  | [v] => v.display
  | vs => String.ofList ('(' :: Json.commaSeparated (Json.quotedItems vs) ++ [')'])

/-- A rejection, for the elements of a value, which have to be texts. -/
def ofProblems (v : Json) : Except Fault Failure :=
  v.elements.bind fun vs =>
    match textsOf? vs with
    | some problems => .ok (.rejected problems)
    | none => .error .wrongKind

def ofDiagnostics (errors warnings : Json) : Except Fault Failure := do
  return .diagnosed (← errors.elements) (← warnings.elementsOrNone)

def ofName (name : String) (said : List Json) : Except Fault Failure :=
  match name, said with
  | "UnknownFamily", [v] => .ok (.unknownFamily v)
  | "ValidationFailed", [v] => ofProblems v
  | "CompilationFailed", [errors] => ofDiagnostics errors .null
  | "CompilationFailed", [errors, warnings] => ofDiagnostics errors warnings
  | "EngineUnavailable", vs => .ok (.engineUnavailable (reasonOf vs))
  | "ContractNotFound", vs => .ok (.contractNotFound (reasonOf vs))
  | "InterpretationFailed", vs => .ok (.notInterpreted (reasonOf vs))
  | _, _ => .error .wrongKind

end Solwright.Failure
