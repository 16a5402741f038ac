import Solwright.Suggestion.Basic

/-!
The request that a suggestion makes together with parameters in any form that members can be read
from: an object, or a list of pairs. The names of parameters have to be texts.
-/

namespace Solwright.Suggestion

def pairOf (place : Nat) (v : Json) : Except Fault (Json × Json) :=
  v.elements.bind fun
    | [key, w] => .ok (key, w)
    | vs => .error (.badValue
      s!"dictionary update sequence element #{place} has length {vs.length}; 2 is required")

/-- The pairs that values are, from a place on. Arrays and objects are no keys. -/
def pairsFrom : Nat → List Json → Except Fault (List (Json × Json))
  | _, [] => .ok []
  | place, v :: vs =>
    (pairOf place v).bind fun
      | (.arr _, _) | (.obj _, _) => .error .wrongKind
      | pair => (pairsFrom (place + 1) vs).map (pair :: ·)

def parameterPairs (v : Json) : Except Fault (List (Json × Json)) :=
  match v with
  | .obj ms => .ok (ms.map fun m => (m.1.json, m.2))
  | v => v.elementsOrNone.bind (pairsFrom 0)

def keyStep : Json → Step
  | .int n => .item n
  | .bool b => .item (if b then 1 else 0)
  | v => .member (String.ofList v.quotedForm)

/-- The members that pairs are, with a problem for every key that is no text. -/
def membersOf : List (Json × Json) → Checked (List (RawText × Json))
  | [] => .accept []
  | (key, w) :: rest =>
    let member := ((Schema.text key).within (.member "[key]")).within (keyStep key)
    (fun name ms => (name, w) :: ms) <$> member <*> membersOf rest

def requestWith (s : Suggestion) (parameters : Json) : Except Fault Request :=
  (parameterPairs parameters).bind fun pairs =>
    match ((membersOf pairs).within (.member "parameters")).named Request.recordName with
    | .ok ms => .ok (s.toRequest ms)
    | .error r => .error (.rejection r)

end Solwright.Suggestion
