import Solwright.Text.Blank
import Solwright.Text.Identifier
import Solwright.Text.Scan
import Solwright.Text.Word

/-!
The names that a source declares, as a scan without a grammar finds them: contracts whose
declaration begins a line, white space apart, and functions with an opening parenthesis.
-/

namespace Solwright.Source

open Solwright.Text

def afterOptional (w s : List Char) : List Char :=
  (((after? w s).bind (afterSome? isBlank)).getD s)

/-- A contract declaration at the start of a line: its name, and what follows. -/
def declaration? (before : Option Char) (s : List Char) : Option (List Char × List Char) :=
  if atLineStart before then
    (after? "contract".toList (afterOptional "abstract".toList (s.dropWhile isBlank))).bind
      fun s => (afterSome? isBlank s).bind identifier?
  else none

def declarations (s : List Char) : List (List Char) :=
  allMatches declaration? s

def firstDeclared? (source : String) : Option String :=
  (declarations source.toList).head?.map String.ofList

/-- A function definition: its name, and what follows the opening parenthesis. -/
def function? (before : Option Char) (s : List Char) : Option (List Char × List Char) :=
  if before.any isWord then none else
  match (after? "function".toList s).bind fun s => (afterSome? isBlank s).bind identifier? with
  | some (name, s) => (after? ['('] (s.dropWhile isBlank)).map fun s => (name, s)
  | none => none

def functions (s : List Char) : List (List Char) :=
  allMatches function? s

end Solwright.Source
