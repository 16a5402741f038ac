import Solwright.Text.Quoted

/-!
Hexadecimal text: the mark that may stand in front of it, and its digits.
-/

namespace Solwright.Text

/-- Text without one mark `0x` in front. -/
def dropHexMark : List Char → List Char
  | '0' :: 'x' :: s => s
  | '0' :: 'X' :: s => s
  | s => s

def hasHexMark : List Char → Bool
  | '0' :: 'x' :: _ => true
  | '0' :: 'X' :: _ => true
  | _ => false

def withHexMark (s : List Char) : List Char :=
  if hasHexMark s then s else '0' :: 'x' :: s

def hexDigit? (c : Char) : Option Nat :=
  if c.isDigit then some (c.toNat - '0'.toNat)
  else if 'a' ≤ c && c ≤ 'f' then some (c.toNat - 'a'.toNat + 10)
  else if 'A' ≤ c && c ≤ 'F' then some (c.toNat - 'A'.toNat + 10)
  else none

def hexText (bytes : List UInt8) : List Char :=
  bytes.flatMap fun b => hexPadded 2 b.toNat

end Solwright.Text
