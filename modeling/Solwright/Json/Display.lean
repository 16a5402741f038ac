import Solwright.Json.Writer

/-!
Values as they stand in messages: texts in quotes, `None`, `True` and `False` for the three words of
JSON, and the doubles that are not numbers in lower case.
-/

namespace Solwright.Json

open Solwright.Number Solwright.Text

def displayedNames : SpecialNames := ⟨"nan", "inf"⟩

def quotedRaw : RawText → List Char
  | .formed s => quoted s.toList
  | .illFormed codes => quotedCodes codes

mutual

/-- A value as it stands inside another one in a message. -/
def quotedForm : Json → List Char
  | .null => "None".toList
  | .bool true => "True".toList
  | .bool false => "False".toList
  | .int n => (integerText n).toList
  | .float x => x.text displayedNames
  | .str s => quoted s.toList
  | .illFormed codes => quotedCodes codes
  | .arr vs => '[' :: commaSeparated (quotedItems vs) ++ [']']
  | .obj ms => '{' :: commaSeparated (quotedMembers ms) ++ ['}']

def quotedItems : List Json → List (List Char)
  | [] => []
  | v :: vs => quotedForm v :: quotedItems vs

def quotedMembers : List (RawText × Json) → List (List Char)
  | [] => []
  | (k, v) :: ms => (quotedRaw k ++ ':' :: ' ' :: quotedForm v) :: quotedMembers ms

end

/-- A value on its own in a message: a text stands without quotes. -/
def display : Json → RawText
  | .str s => s
  | .illFormed codes => .illFormed codes
  | v => String.ofList (quotedForm v)

end Solwright.Json
