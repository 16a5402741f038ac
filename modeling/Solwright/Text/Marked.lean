import Solwright.Text.Raw

/-!
Code points as characters, for scans to which half a pair is a character like any other that has no
meaning of its own. Half a pair takes two characters: the one that stands for what cannot be shown,
and one for private use. Where the first of them stands for itself it is written twice.
-/

namespace Solwright.Text

def mark : Char := Char.ofNat 0xFFFD

def markedCode (n : Nat) : List Char :=
  if isHalf n then [mark, Char.ofNat (0xE000 + (n - 0xD800))]
  else if n = mark.toNat then [mark, mark]
  else [Char.ofNat n]

def marked (ns : List Nat) : List Char :=
  ns.flatMap markedCode

/-- The code points that characters were made of. A slash is never the second of two. -/
def unmarked : List Char → List Nat
  | c :: d :: s =>
    if c == mark && d != '/' then
      (if d == mark then mark.toNat else 0xD800 + (d.toNat - 0xE000)) :: unmarked s
    else c.toNat :: unmarked (d :: s)
  | [c] => [c.toNat]
  | [] => []

end Solwright.Text
