import Solwright.Json.Token

/-!
Reading JSON. The tokens of a text drive a machine that keeps the arrays and objects that are still
open; each token either moves it on or is a fault at its place, and so is the end of the text
before a value is complete. How deep arrays and objects may be nested is up to the interpreter and
its stack, so the limit is a parameter.
-/

namespace Solwright.Json

open Solwright.Number Solwright.Text

/-- An array or object that is still open. The items of an array are kept last first. -/
inductive Frame
  | array (items : List Json)
  | object (members : List (RawText × Json)) (key : RawText)

inductive Expecting
  | value
  | valueOrClose
  | name (members : List (RawText × Json))
  | nameOrClose
  | colon (members : List (RawText × Json)) (key : RawText)
  | commaOrClose
  | nothing (v : Json)

/-- A reader between two tokens: the open frames, innermost first, and what comes next. -/
structure Reader where
  frames : List Frame
  expecting : Expecting

namespace Reader

def start : Reader :=
  ⟨[], .value⟩

def complete (v : Json) : List Frame → Reader
  | [] => ⟨[], .nothing v⟩
  | .array items :: fs => ⟨.array (v :: items) :: fs, .commaOrClose⟩
  | .object ms key :: fs => ⟨.object (putMember key v ms) key :: fs, .commaOrClose⟩

/-- Opens an array or object if it is not too deep. -/
def deeper (limit : Nat) (inObject : Bool) (fs : List Frame) (r : Reader) : Except Fault Reader :=
  if limit ≤ fs.length then .error (.nesting inObject) else .ok r

def takeValue (limit : Nat) (fs : List Frame) (place : Nat) : Token → Except Fault Reader
  | .scalar v => .ok (complete v fs)
  | .text codes => .ok (complete (.ofCodes codes) fs)
  | .openArray => deeper limit false fs ⟨.array [] :: fs, .valueOrClose⟩
  | .openObject => deeper limit true fs ⟨.object [] "" :: fs, .nameOrClose⟩
  | .brokenText f => .error f
  | .brokenNumeral f => .error f
  | _ => .error (.expectingValue place)

/-- Takes a token where the name of a member is expected. The frame of the object is open. -/
def takeName (fs : List Frame) (ms : List (RawText × Json)) (place : Nat) :
    Token → Except Fault Reader
  | .text codes => .ok ⟨fs, .colon ms (.ofCodes codes)⟩
  | .brokenText f => .error f
  | _ => .error (.expectingName place)

def afterItem (items : List Json) (fs : List Frame) (place : Nat) : Token → Except Fault Reader
  | .closeArray => .ok (complete (.arr items.reverse) fs)
  | .comma => .ok ⟨.array items :: fs, .value⟩
  | _ => .error (.expectingComma place)

def afterMember (ms : List (RawText × Json)) (fs : List Frame) (place : Nat) :
    Token → Except Fault Reader
  | .closeObject => .ok (complete (.obj ms) fs)
  | .comma => .ok ⟨fs, .name ms⟩
  | _ => .error (.expectingComma place)

def step (limit : Nat) (r : Reader) (t : Token × Nat) : Except Fault Reader :=
  match r.expecting, r.frames, t.1 with
  | .value, fs, tok => takeValue limit fs t.2 tok
  | .valueOrClose, .array _ :: fs, .closeArray => .ok (complete (.arr []) fs)
  | .valueOrClose, fs, tok => takeValue limit fs t.2 tok
  | .nameOrClose, .object _ _ :: fs, .closeObject => .ok (complete (.obj []) fs)
  | .nameOrClose, fs, tok => takeName (fs.drop 1) [] t.2 tok
  | .name ms, fs, tok => takeName fs ms t.2 tok
  | .colon ms key, fs, .colon => .ok ⟨.object ms key :: fs, .value⟩
  | .colon _ _, _, _ => .error (.expectingColon t.2)
  | .commaOrClose, .array items :: fs, tok => afterItem items fs t.2 tok
  | .commaOrClose, .object ms _ :: fs, tok => afterMember ms fs t.2 tok
  | .commaOrClose, [], _ => .error (.expectingComma t.2)
  | .nothing _, _, _ => .error (.extraData t.2)

def finish (r : Reader) (place : Nat) : Except Fault Json :=
  match r.expecting with
  | .value | .valueOrClose => .error (.expectingValue place)
  | .name _ | .nameOrClose => .error (.expectingName place)
  | .colon _ _ => .error (.expectingColon place)
  | .commaOrClose => .error (.expectingComma place)
  | .nothing v => .ok v

def run (limit : Nat) (r : Reader) (ending : Nat) : List (Token × Nat) → Except Fault Json
  | [] => r.finish ending
  | t :: ts =>
    match r.step limit t with
    | .ok r => r.run limit ending ts
    | .error f => .error f

end Reader

/-- Reads a JSON text in which a byte order mark has no meaning of its own. -/
def readDecoded (limit : Nat) (s : List Char) : Except Fault Json :=
  Reader.start.run limit s.length (tokens s)

def read (limit : Nat) (s : List Char) : Except Fault Json :=
  if s.head? == some (Char.ofNat 0xFEFF) then .error .byteOrderMark else readDecoded limit s

def Fault.syntax? : Fault → Option (String × Nat)
  | .byteOrderMark => some ("Unexpected UTF-8 BOM (decode using utf-8-sig)", 0)
  | .expectingValue p => some ("Expecting value", p)
  | .expectingName p => some ("Expecting property name enclosed in double quotes", p)
  | .expectingColon p => some ("Expecting ':' delimiter", p)
  | .expectingComma p => some ("Expecting ',' delimiter", p)
  | .extraData p => some ("Extra data", p)
  | .unterminated p => some ("Unterminated string starting at", p)
  | .controlCharacter p => some ("Invalid control character at", p)
  | .escape p => some ("Invalid \\escape", p)
  | .unicodeEscape p => some ("Invalid \\uXXXX escape", p)
  | .longNumeral _ | .nesting _ => none

/-- A place in a text by line and column, both counted from one, and by number. -/
def placeText (s : List Char) (place : Nat) : String :=
  let before := s.take place
  let line := before.count '\n' + 1
  let column := (before.reverse.takeWhile (· != '\n')).length + 1
  s!"line {line} column {column} (char {place})"

def Fault.message (s : List Char) : Fault → String
  | .longNumeral n => (IntegerFault.tooLong n).message []
  | .nesting inObject =>
    let kind := if inObject then "object" else "array"
    s!"maximum recursion depth exceeded while decoding a JSON {kind} from a unicode string"
  | f =>
    match f.syntax? with
    | some (what, place) => what ++ ": " ++ placeText s place
    | none => ""

end Solwright.Json
