import Solwright.Abi.Encoding
import Solwright.Composition

/-!
The arguments that a contract is created with. Each input of the constructor takes the value of its
name: a parameter of the request, else its name or symbol, else a default; the value is brought to
the input's type, and all inputs that have no value of their type are reported together.
-/

namespace Solwright.Deployment

open Solwright.Number Solwright.Text

structure Input where
  name : Json
  type : Option Json

/-- What stands in the place of a type, an empty text where there is nothing. -/
def Input.typeOrEmpty (i : Input) : Json :=
  i.type.getD (.str "")

/-- The input at a place among those of a constructor. One without a name is named by its place. -/
def Input.ofJson (place : Nat) (v : Json) : Except Fault Input := do
  let name ← v.member "name"
  return ⟨if name.isTrue then name else .str s!"arg{place}", v.get? "type"⟩

def inputsAmong : List Json → Except Fault (List Json)
  | [] => .ok []
  | entry :: rest =>
    (entry.member "type").bind fun type =>
      match type with
      | .str "constructor" => (entry.member "inputs").bind Json.elementsOrNone
      | _ => inputsAmong rest

def inputs (abi : Json) : Except Fault (List Json) :=
  abi.elements.bind inputsAmong

def isGiven : Json → Bool
  | .null => false
  | _ => true

def values (r : Request) : List (RawText × Json) :=
  let defaults := (Template.of r.family).parameters.filterMap fun p =>
    p.default.map fun n => (RawText.formed p.name, Json.int n)
  let own : List (RawText × Json) := ("name", Json.str r.contractName.text) ::
    r.symbol.toList.map fun s => ("symbol", .str s.text)
  putMembers (putMembers defaults own) (r.parameters.filter fun p => isGiven p.2)

def kindName : Json → String
  | .null => "NoneType"
  | .bool _ => "bool"
  | .int _ => "int"
  | .float _ => "float"
  | .str _ | .illFormed _ => "str"
  | .arr _ => "list"
  | .obj _ => "dict"

/-- Why a value is not brought to a type: something to report, or a fault that ends everything. -/
inductive Refusal
  | reported (reason : String)
  | fatal (f : Fault)

/-- A whole number. Fractions are cut off. -/
def integerArgument (v : Json) : Except Refusal Argument :=
  match v with
  | .bool _ => .error (.reported "expected an integer, got a boolean")
  | .int n => .ok (.int n)
  | .float (.finite s m e _) => .ok (.int (Binary64.truncate s m e))
  | .float (.infinite _) => .error (.fatal .tooLarge)
  | .float .nan => .error (.reported "cannot convert float NaN to integer")
  | .str s =>
    match readInteger s.toList with
    | .ok n => .ok (.int n)
    | .error f => .error (.reported (f.message (quoted s.toList)))
  | .illFormed codes => .error (.reported (IntegerFault.notANumeral.message (quotedCodes codes)))
  | v =>
    .error (.reported ("int() argument must be a string, a bytes-like object or a real number, "
      ++ s!"not '{kindName v}'"))

def addressArgument (v : Json) : Except Refusal Argument :=
  match v with
  | .str s =>
    if Address.isAddress s.toList then .ok (.text (String.ofList (Address.checked s.toList)))
    else .error (.reported (String.ofList v.quotedForm ++ " is not an address"))
  | v => .error (.reported (String.ofList v.quotedForm ++ " is not an address"))

def yesWords : List String := ["1", "true", "yes"]

/-- A truth value: a text is yes where it is one of the words for it, and any other value where it
counts as yes. -/
def switchArgument : Json → Argument
  | .str s => .bool (yesWords.contains (String.ofList (lower (trim s.toList))))
  | .illFormed _ => .bool false
  | v => .bool v.isTrue

def textArgument : Json → Argument
  | .illFormed codes => .other (.illFormed codes)
  | v => .text v.display.shown

def isGap (c : Char) : Bool :=
  c == ' ' || (9 ≤ c.toNat && c.toNat ≤ 13)

/-- The bytes that pairs of hexadecimal digits spell, or the place of the first character that is no
digit. The first arguments are the place and a digit that waits for its pair. -/
def pairsFrom (place : Nat) (high : Option Nat) : List Char → Except Nat (List UInt8)
  | [] => if high.isSome then .error place else .ok []
  | c :: s =>
    match high, hexDigit? c with
    | some h, some l => (pairsFrom (place + 1) none s).map ((16 * h + l).toUInt8 :: ·)
    | none, some h => pairsFrom (place + 1) (some h) s
    | none, none => if isGap c then pairsFrom (place + 1) none s else .error place
    | some _, none => .error place

def bytesOfText (s : List Char) : Except Refusal (List UInt8) :=
  let ascii := s.takeWhile (·.toNat < 128)
  let outcome := if ascii.length < s.length then .error ascii.length else pairsFrom 0 none s
  match outcome with
  | .ok bs => .ok bs
  | .error place => .error (.reported
      s!"non-hexadecimal number found in fromhex() arg at position {place}")

/-- Zeros of a count, as far as there is room for them. A count that is no word, or that leaves no
room in a word for the header of the bytes, is too large. -/
def zeroBytes (room : Nat) (n : Int) : Except Refusal (List UInt8) :=
  let words : Int := Nat.pow 2 63
  if n < -words || words - 33 ≤ n then .error (.fatal .tooLarge)
  else if n < 0 then .error (.reported "negative count")
  else if room ≤ n then .error (.fatal .outOfMemory)
  else .ok (List.replicate n.toNat 0)

def byteOfItem (v : Json) : Except Refusal UInt8 :=
  match v with
  | .int n =>
    if 0 ≤ n && n < 256 then .ok n.toNat.toUInt8
    else .error (.reported "bytes must be in range(0, 256)")
  | .bool b => .ok (if b then 1 else 0)
  | v => .error (.reported s!"'{kindName v}' object cannot be interpreted as an integer")

def bytesOfItems : List Json → Except Refusal (List UInt8)
  | [] => .ok []
  | v :: vs => (byteOfItem v).bind fun b => (bytesOfItems vs).map (b :: ·)

def bytesArgument (room : Nat) (v : Json) : Except Refusal Argument :=
  Argument.bytes <$> match v with
  | .str s => bytesOfText (dropHexMark s.toList)
  | .illFormed codes => bytesOfText (dropHexMark (shownCodes codes))
  | .int n => zeroBytes room n
  | .bool b => zeroBytes room (if b then 1 else 0)
  | .arr vs => bytesOfItems vs
  | .obj ms => bytesOfItems (ms.map fun m => m.1.json)
  | v => .error (.reported s!"cannot convert '{kindName v}' object to bytes")

/-- A value brought to the type that a text spells. Types without a rule take any value. -/
def argument (room : Nat) (type : String) (v : Json) : Except Refusal Argument :=
  if type.startsWith "uint" || type.startsWith "int" then integerArgument v
  else if type == "address" then addressArgument v
  else if type == "bool" then .ok (switchArgument v)
  else if type == "string" then .ok (textArgument v)
  else if type.startsWith "bytes" then bytesArgument room v
  else .ok (.ofJson v)

def argumentFor (room : Nat) (type : Json) (v : Json) : Except Refusal Argument :=
  match type with
  | .str s => argument room s v
  | _ => .error (.fatal .noSuchMember)

/-- The value held under a name. Arrays and objects are no names, and only texts name a value. -/
def heldAs (held : List (RawText × Json)) : Json → Except Fault (Option Json)
  | .str name => .ok (held.lookup (.formed name))
  | .illFormed codes => .ok (held.lookup (.illFormed codes))
  | .arr _ | .obj _ => .error .wrongKind
  | _ => .ok none

/-- What is known after some inputs: how many they were, and the arguments and the problems, each in
order. -/
structure Tally where
  count : Nat := 0
  arguments : List Argument := []
  problems : List RawText := []

def Tally.withProblem (t : Tally) (problem : RawText) : Tally :=
  { t with count := t.count + 1, problems := t.problems ++ [problem] }

def Tally.addInput (room : Nat) (held : List (RawText × Json)) (t : Tally) (i : Input) : Except Fault Tally :=
  let spelled := i.name.display ++ " (" ++ i.typeOrEmpty.display ++ ")"
  (heldAs held i.name).bind fun
    | none => .ok (t.withProblem ("Missing constructor argument: " ++ spelled))
    | some v =>
      match argumentFor room i.typeOrEmpty v with
      | .ok a => .ok { t with count := t.count + 1, arguments := t.arguments ++ [a] }
      | .error (.reported reason) =>
        .ok (t.withProblem ("Invalid value for " ++ spelled ++ ": " ++ reason))
      | .error (.fatal f) => .error f

def Tally.addAll (room : Nat) (held : List (RawText × Json)) (t : Tally) : List Json → Except Fault Tally
  | [] => .ok t
  | v :: rest =>
    (Input.ofJson t.count v).bind fun i => (t.addInput room held i).bind fun t =>
      t.addAll room held rest

def argumentsFor (room : Nat) (ins : List Json) (r : Request) : Except Fault (List Argument) :=
  (Tally.addAll room (values r) {} ins).bind fun t =>
    if t.problems.isEmpty then .ok t.arguments else .error (.failure (.rejected t.problems))

def arguments (room : Nat) (abi : Json) (r : Request) : Except Fault (List Argument) :=
  (inputs abi).bind fun ins => argumentsFor room ins r

end Solwright.Deployment
