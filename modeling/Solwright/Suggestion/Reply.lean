import Solwright.Fault
import Solwright.Json.Reader
import Solwright.Suggestion.Basic
import Solwright.Text.Fence

/-!
Reading a suggestion from the reply of a model: one JSON object with all six fields, bare or in a
fence.
-/

namespace Solwright.Suggestion

open Solwright.Text

def replyFields : List String :=
  ["family", "contractName", "symbol", "initialSupply", "features", "reasoning"]

def unusable (reason : String) : Fault :=
  .failure (.notInterpreted reason)

def ofReplyValue : Json → Except Fault Suggestion
  | .obj ms =>
    let missing := replyFields.filter fun name => (ms.lookup (.formed name)).isNone
    if missing.isEmpty then
      match read (.obj ms) with
      | .ok s => .ok s
      | .error r => .error (unusable ("Invalid model response format: " ++ r.message))
    else .error (unusable ("Model response missing fields: " ++ joined ", " missing))
  | _ => .error (unusable "Model response is not a JSON object")

/-- Reads the reply of a model. Numerals and nesting beyond the limits of JSON reading are faults of
their own. -/
def ofReply (limit : Nat) (reply : Option String) : Except Fault Suggestion :=
  let text := reply.getD ""
  if text.isEmpty then .error (unusable "Empty model response") else
  let s := stripFences text.toList
  match Json.read limit s with
  | .ok v => ofReplyValue v
  | .error f => .error (.ofJson (fun m => unusable ("Failed to parse model response: " ++ m)) s f)

end Solwright.Suggestion
