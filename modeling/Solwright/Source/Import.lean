import Solwright.Text.Blank
import Solwright.Text.Marked
import Solwright.Text.Scan
import Solwright.Text.Word

/-!
The import statements of a source, as a scan without a grammar finds them: a statement begins a
line, white space apart, and ends with the first semicolon after its quoted path.
-/

namespace Solwright.Source

open Solwright.Text

def isQuote (c : Char) : Bool :=
  c == '"' || c == '\''

/-- Whether text ends with the word `from` and white space after it, given in reverse. -/
def endsWithFrom (reversed : List Char) : Bool :=
  match (afterSome? isBlank reversed).bind (after? "morf".toList) with
  | some rest => !rest.head?.any isWord
  | none => false

def isClause (between : List Char) : Bool :=
  between.head?.any isBlank && (between.all isBlank || endsWithFrom between.reverse)

def quotedPath? : List Char → Option (List Char × List Char)
  | [] => none
  | q :: s =>
    let path := s.takeWhile (!isQuote ·)
    let rest := s.dropWhile (!isQuote ·)
    if isQuote q && !path.isEmpty && !rest.isEmpty then some (path, rest.drop 1) else none

/-- An import statement at the start of a line: its path, and what follows. -/
def import? (before : Option Char) (s : List Char) : Option (List Char × List Char) :=
  if atLineStart before then
    (after? "import".toList (s.dropWhile isBlank)).bind fun s =>
      let ends := fun c => isQuote c || c == ';'
      if isClause (s.takeWhile (!ends ·)) then
        (quotedPath? (s.dropWhile (!ends ·))).bind fun (path, s) =>
          match s.dropWhile (· != ';') with
          | [] => none
          | _ :: rest => some (path, rest)
      else none
  else none

def imports (source : String) : List String :=
  (allMatches import? source.toList).map String.ofList

/-- The paths that a source imports where it need not be well formed. -/
def importsOf : RawText → List RawText
  | .formed s => (imports s).map .formed
  | .illFormed ns => (allMatches import? (marked ns)).map fun s => .ofCodes (unmarked s)

end Solwright.Source
