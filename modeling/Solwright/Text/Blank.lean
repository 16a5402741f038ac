/-!
White space of every script, and the two ways in which text is cut at it: trimming both ends, and
taking the runs of characters of one class.
-/

namespace Solwright.Text

/-- White space of any script; the four information separators count, the zero-width space does
not. -/
def isBlank (c : Char) : Bool :=
  let n := c.toNat
  (9 ≤ n && n ≤ 13) || (28 ≤ n && n ≤ 32) || n == 0x85 || n == 0xA0 || n == 0x1680 ||
    (0x2000 ≤ n && n ≤ 0x200A) || n == 0x2028 || n == 0x2029 || n == 0x202F || n == 0x205F ||
    n == 0x3000

/-- White space that may surround a numeral: the information separators may not. -/
def isNumeralBlank (c : Char) : Bool :=
  isBlank c && !(28 ≤ c.toNat && c.toNat ≤ 31)

def trimBy (p : Char → Bool) (s : List Char) : List Char :=
  ((s.dropWhile p).reverse.dropWhile p).reverse

def trim (s : List Char) : List Char :=
  trimBy isBlank s

def extendRun (c : Char) : List (List Char) → List (List Char)
  | [] => [[c]]
  | r :: rs => (c :: r) :: rs

/-- The maximal runs of characters of a class, in order. -/
def runs (p : Char → Bool) : List Char → List (List Char)
  | [] => []
  | c :: s =>
    if p c then
      if s.head?.any p then extendRun c (runs p s) else [c] :: runs p s
    else runs p s

def words (s : List Char) : List (List Char) :=
  runs (!isBlank ·) s

end Solwright.Text
