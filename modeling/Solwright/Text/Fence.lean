import Solwright.Text.Blank
import Solwright.Text.Case
import Solwright.Text.Scan

/-!
Fences of three backticks around text. A fence takes the word `json` after it, in any case, and the
white space after that.
-/

namespace Solwright.Text

def fence : List Char := "```".toList

def afterFence? (s : List Char) : Option (List Char) :=
  (after? fence s).map fun s => ((afterFolded? "json".toList s).getD s).dropWhile isBlank

def stripFences (s : List Char) : List Char :=
  trim (dropMatches afterFence? s)

end Solwright.Text
