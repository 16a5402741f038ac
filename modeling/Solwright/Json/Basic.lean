import Solwright.Number.Binary64
import Solwright.Text.Raw

/-!
JSON values. An object is the list of its members in the order in which their keys first came;
putting a member under a key that is already there replaces the value and keeps the place. A text
that holds half a surrogate pair on its own is no Unicode text and is kept apart from those that
are.
-/

namespace Solwright

open Solwright.Text

/-- A JSON value. A text with half a pair on its own is kept by its code points. -/
inductive Json
  | null
  | bool (b : Bool)
  | int (n : Int)
  | float (x : Number.Binary64)
  | str (s : String)
  | illFormed (codes : List Nat)
  | arr (items : List Json)
  | obj (members : List (RawText × Json))

instance : Inhabited Json := ⟨.null⟩

def putMember [DecidableEq κ] (key : κ) (v : α) : List (κ × α) → List (κ × α)
  | [] => [(key, v)]
  | (k, w) :: ms => if k = key then (k, v) :: ms else (k, w) :: putMember key v ms

def putMembers [DecidableEq κ] (base more : List (κ × α)) : List (κ × α) :=
  more.foldl (fun ms m => putMember m.1 m.2 ms) base

/-- A text as the name of a member that is written out, in which half a pair is replaced byte by
byte. -/
def RawText.asName : RawText → RawText
  | .formed s => s
  | .illFormed ns =>
    String.ofList (ns.flatMap fun n =>
      if isHalf n then List.replicate 3 (Char.ofNat 0xFFFD) else [Char.ofNat n])

def RawText.json : RawText → Json
  | .formed s => .str s
  | .illFormed codes => .illFormed codes

namespace Json

def members : Json → List (RawText × Json)
  | .obj ms => ms
  | _ => []

def get? (v : Json) (key : RawText) : Option Json :=
  v.members.lookup key

/-- A value that counts as yes: anything but null, false, zero and what is empty. -/
def isTrue : Json → Bool
  | .null => false
  | .bool b => b
  | .int n => n != 0
  | .float x => !x.isZero
  | .str s => s != ""
  | .illFormed _ => true
  | .arr vs => !vs.isEmpty
  | .obj ms => !ms.isEmpty

def ofCodes (ns : List Nat) : Json :=
  if ns.any isHalf then .illFormed ns else .str (String.ofList (shownCodes ns))

/-- The values that one comes by in going through a value: the items of an array, the keys of an
object, the characters of a text. -/
def elements? : Json → Option (List Json)
  | .arr vs => some vs
  | .obj ms => some (ms.map fun m => m.1.json)
  | .str s => some (s.toList.map fun c => .str c.toString)
  | .illFormed ns => some (ns.map fun n => ofCodes [n])
  | _ => none

/-- A value, or an empty object in place of one that does not count as yes. -/
def orObject (v : Json) : Json :=
  if v.isTrue then v else .obj []

mutual

/-- How many values stand inside one another at the deepest place of a value. -/
def levels : Json → Nat
  | .arr vs => levelsOfItems vs + 1
  | .obj ms => levelsOfMembers ms + 1
  | _ => 1

def levelsOfItems : List Json → Nat
  | [] => 0
  | v :: vs => max v.levels (levelsOfItems vs)

def levelsOfMembers : List (RawText × Json) → Nat
  | [] => 0
  | (_, v) :: ms => max v.levels (levelsOfMembers ms)

end

mutual

/-- How many arrays and objects stand inside one another at the deepest place of a value. -/
def nesting : Json → Nat
  | .arr vs => nestingOfItems vs + 1
  | .obj ms => nestingOfMembers ms + 1
  | _ => 0

def nestingOfItems : List Json → Nat
  | [] => 0
  | v :: vs => max v.nesting (nestingOfItems vs)

def nestingOfMembers : List (RawText × Json) → Nat
  | [] => 0
  | (_, v) :: ms => max v.nesting (nestingOfMembers ms)

end

def renamed (ms : List (RawText × Json)) : List (RawText × Json) :=
  if ms.all (·.1.isFormed) then ms else putMembers [] (ms.map fun m => (m.1.asName, m.2))

mutual

/-- A value as it is written out. A double that is no finite number is written as null. -/
def written : Json → Json
  | .float x => if x.isFinite then .float x else .null
  | .arr vs => .arr (writtenItems vs)
  | .obj ms => .obj (renamed (writtenMembers ms))
  | v => v

def writtenItems : List Json → List Json
  | [] => []
  | v :: vs => v.written :: writtenItems vs

def writtenMembers : List (RawText × Json) → List (RawText × Json)
  | [] => []
  | (key, v) :: ms => (key, v.written) :: writtenMembers ms

end

def texts (ss : List String) : Json :=
  .arr (ss.map .str)

def rawTexts (ss : List RawText) : Json :=
  .arr (ss.map RawText.json)

def text? : Option String → Json
  | some s => .str s
  | none => .null

def rawText? : Option RawText → Json
  | some s => s.json
  | none => .null

def int? : Option Int → Json
  | some n => .int n
  | none => .null

end Json

end Solwright
