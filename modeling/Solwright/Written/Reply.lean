import Solwright.Fault
import Solwright.Json.Codes
import Solwright.Text.Marked
import Solwright.Written.Basic
import Solwright.Written.Mining

/-!
Reading a written contract from the reply of a model: the object it was asked for where it sent one,
and otherwise whatever the text gives away.
-/

namespace Solwright.WrittenContract

open Solwright.Text

def minedExplanation : String := "Contract generated based on your requirements"

def bracedSpan? (s : List Char) : Option (List Char) :=
  Mining.upToLast? '\x7d' (s.dropWhile (· != '\x7b'))

def candidates (s : List Char) : List (List Char) :=
  stripFences s :: (bracedSpan? s).toList

def codeMembers? (v : Json) : Option (List (RawText × Json)) :=
  if (v.get? "contractCode").isSome then some v.members else none

/-- The first of some texts that reads as an object with code. Faults of syntax are passed over,
limits of reading are not. -/
def firstObject? (read : List Char → Except Json.Fault Json) :
    List (List Char) → Except Fault (Option (List (RawText × Json)))
  | [] => .ok none
  | s :: rest =>
    match read s with
    | .ok v =>
      match codeMembers? v with
      | some ms => .ok (some ms)
      | none => firstObject? read rest
    | .error f => if f.syntax?.isSome then firstObject? read rest else .error (.ofJson .badValue s f)

/-- A contract without a name gets the first one that its code declares. -/
def withDeclaredName (c : WrittenContract) : WrittenContract :=
  match c.name with
  | some (.formed "") | none => { c with name := (Source.firstDeclared? c.code).map .formed }
  | _ => c

def ofReplyMembers (ms : List (RawText × Json)) : Except Fault WrittenContract :=
  match (ofMembers ms).named recordName with
  | .ok c => .ok c.withDeclaredName
  | .error r => .error (.failure (.notInterpreted s!"Invalid generated contract: {r.message}"))

def mined (text code : String) : WrittenContract where
  code := code
  name := (Mining.name? text code).map .formed
  symbol := (Mining.symbol? text code).map .formed
  family := Mining.family text code
  features := (Mining.features text code).map .formed
  explanation := some (.formed minedExplanation)

def noCode : Fault :=
  .failure (.notInterpreted "No contract code found in model response")

def mine (text : String) : Except Fault WrittenContract :=
  let code := String.ofList ((Mining.code? text.toList).getD [])
  if code.isEmpty then .error noCode else .ok (mined text code)

/-- The contract that a text gives away whose code points are marked. Code has to be well formed. -/
def mineMarked (s : List Char) : Except Fault WrittenContract :=
  match RawText.ofCodes (unmarked ((Mining.code? s).getD [])) with
  | .formed code => if code.isEmpty then .error noCode else .ok (mined (String.ofList s) code)
  | .illFormed codes =>
    .error (.rejection ⟨recordName, [⟨[.member codeField.name], .notUnicode, .illFormed codes⟩]⟩)

def ofReply (limit : Nat) (reply : Option String) : Except Fault WrittenContract :=
  let text := reply.getD ""
  if text.toList.all isBlank then .error (.failure (.notInterpreted "Empty model response")) else
  match firstObject? (Json.read limit) (candidates text.toList) with
  | .error f => .error f
  | .ok (some ms) => ofReplyMembers ms
  | .ok none => mine text

def ofText (limit : Nat) : RawText → Except Fault WrittenContract
  | .formed text => ofReply limit text
  | .illFormed codes =>
    match firstObject? (fun s => Json.readCodes limit (unmarked s)) (candidates (marked codes)) with
    | .error f => .error f
    | .ok (some ms) => ofReplyMembers ms
    | .ok none => mineMarked (marked codes)

end Solwright.WrittenContract
