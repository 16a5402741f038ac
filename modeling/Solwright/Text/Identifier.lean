import Solwright.Text.Case

/-!
Identifiers of Solidity as the scanners know them: an ASCII letter or underscore, then ASCII
letters, digits and underscores.
-/

namespace Solwright.Text

def isIdentStart (c : Char) : Bool :=
  c.isAlpha || c == '_'

def isIdentChar (c : Char) : Bool :=
  c.isAlphanum || c == '_'

def identifier? : List Char → Option (List Char × List Char)
  | [] => none
  | c :: s =>
    if isIdentStart c then some (c :: s.takeWhile isIdentChar, s.dropWhile isIdentChar) else none

/-- The longest identifier at the start of a text when case is ignored: a character that shares a
case with an ASCII letter may stand in it. -/
def foldedIdentifier? : List Char → Option (List Char × List Char)
  | [] => none
  | c :: s =>
    if isIdentStart (foldChar c) then
      some (c :: s.takeWhile (isIdentChar <| foldChar ·), s.dropWhile (isIdentChar <| foldChar ·))
    else none

end Solwright.Text
