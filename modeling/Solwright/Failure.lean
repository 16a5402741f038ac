import Solwright.Json.Display

/-!
The ways in which making a contract can fail, and how a failure is reported to a caller.
-/

namespace Solwright

inductive Failure
  | unknownFamily (given : Json)
  | rejected (problems : List RawText)
  | engineUnavailable (reason : RawText)
  | diagnosed (errors warnings : List Json)
  | contractNotFound (reason : RawText)
  | notInterpreted (reason : RawText)

namespace Failure

/-- The wording of a failure. A failed compilation is known by its first error. -/
def message : Failure → RawText
  | .unknownFamily given => "Unknown contract family: " ++ given.display
  | .rejected problems => "Validation failed: " ++ RawText.joined ", " problems
  | .engineUnavailable reason => reason
  | .diagnosed errors _ => (errors.headD (.str "Unknown compilation error")).display
  | .contractNotFound reason => reason
  | .notInterpreted reason => reason

/-- The single messages of a failure. A compiler may put anything in place of a text. -/
def details : Failure → List Json
  | .rejected problems => problems.map RawText.json
  | .diagnosed errors _ => errors
  | f => [f.message.json]

def report (f : Failure) : List (RawText × Json) :=
  ("success", .bool false) :: ("error", f.message.json) :: ("errors", .arr f.details) ::
    match f with
    | .diagnosed _ warnings => [("warnings", .arr warnings)]
    | _ => []

end Failure

end Solwright
