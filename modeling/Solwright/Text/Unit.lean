/-!
Code points that are no characters: the halves of surrogate pairs. Two halves in the right order
make one character; half a pair that stands alone has no character of its own.
-/

namespace Solwright.Text

/-- The first half of a pair of units that makes one character. -/
def isHighHalf (n : Nat) : Bool :=
  0xD800 ≤ n && n < 0xDC00

def isLowHalf (n : Nat) : Bool :=
  0xDC00 ≤ n && n < 0xE000

def isHalf (n : Nat) : Bool :=
  isHighHalf n || isLowHalf n

/-- Adds a unit to the code points read so far, the last one first. A second half after a first one
completes a character. -/
def pushUnit (n : Nat) : List Nat → List Nat
  | [] => [n]
  | h :: ns =>
    if isHighHalf h && isLowHalf n then
      (0x10000 + (h - 0xD800) * 0x400 + (n - 0xDC00)) :: ns
    else n :: h :: ns

/-- The character of a code point. Half a pair has none and is replaced. -/
def shownCode (n : Nat) : Char :=
  if isHalf n then Char.ofNat 0xFFFD else Char.ofNat n

def shownCodes (ns : List Nat) : List Char :=
  ns.map shownCode

end Solwright.Text
