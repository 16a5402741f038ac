import Solwright.Json.Basic
import Solwright.Number.Shortest
import Solwright.Number.Integer

/-!
Writing JSON in ASCII: a blank after every comma and colon, and characters outside ASCII as escaped
units.
-/

namespace Solwright.Json

open Solwright.Number Solwright.Text

/-- Doubles that are not numbers, as JSON texts spell them here. -/
def specialNames : SpecialNames := ⟨"NaN", "Infinity"⟩

def unitEscape (n : Nat) : List Char :=
  '\\' :: 'u' :: hexPadded 4 n

def writeChar (c : Char) : List Char :=
  if c == '"' || c == '\\' then ['\\', c]
  else if c == '\n' then ['\\', 'n']
  else if c == '\r' then ['\\', 'r']
  else if c == '\t' then ['\\', 't']
  else if c == Char.ofNat 12 then ['\\', 'f']
  else if c == Char.ofNat 8 then ['\\', 'b']
  else
    let n := c.toNat
    if 0x20 ≤ n && n < 0x7F then [c]
    else if n < 0x10000 then unitEscape n
    else unitEscape (0xD800 + (n - 0x10000) / 0x400) ++ unitEscape (0xDC00 + (n - 0x10000) % 0x400)

def writeText (s : String) : List Char :=
  '"' :: s.toList.flatMap writeChar ++ ['"']

def commaSeparated : List (List Char) → List Char
  | [] => []
  | [p] => p
  | p :: ps => p ++ ',' :: ' ' :: commaSeparated ps

def writeCode (n : Nat) : List Char :=
  if isHalf n then unitEscape n else writeChar (Char.ofNat n)

def writeCodes (ns : List Nat) : List Char :=
  '"' :: ns.flatMap writeCode ++ ['"']

def writeRaw : RawText → List Char
  | .formed s => writeText s
  | .illFormed codes => writeCodes codes

mutual

def write : Json → List Char
  | .null => "null".toList
  | .bool true => "true".toList
  | .bool false => "false".toList
  | .int n => (integerText n).toList
  | .float x => x.text specialNames
  | .str s => writeText s
  | .illFormed codes => writeCodes codes
  | .arr vs => '[' :: commaSeparated (writeItems vs) ++ [']']
  | .obj ms => '{' :: commaSeparated (writeMembers ms) ++ ['}']

def writeItems : List Json → List (List Char)
  | [] => []
  | v :: vs => write v :: writeItems vs

def writeMembers : List (RawText × Json) → List (List Char)
  | [] => []
  | (k, v) :: ms => (writeRaw k ++ ':' :: ' ' :: write v) :: writeMembers ms

end

end Solwright.Json
