/-!
Comparing text with ASCII words without regard to case. Two rules are in use: lower case, under
which the dotted capital I leaves a combining dot behind, and matching letter by letter, under
which every character that shares a case with an ASCII letter stands for it.
-/

namespace Solwright.Text

/-- The lower case of a character as far as ASCII text can tell: the capitals of ASCII, the dotted
capital I and the Kelvin sign are the only characters whose lower case holds ASCII. -/
def lowerChar (c : Char) : List Char :=
  if c.toNat == 0x130 then ['i', Char.ofNat 0x307]
  else if c.toNat == 0x212A then ['k']
  else [c.toLower]

def lower (s : List Char) : List Char :=
  s.flatMap lowerChar

/-- The ASCII letter that a character stands for when case is ignored: long s, the Kelvin sign and
the dotted and dotless i each share a case with one. -/
def foldChar (c : Char) : Char :=
  let n := c.toNat
  if n == 0x17F then 's' else if n == 0x212A then 'k'
  else if n == 0x130 || n == 0x131 then 'i' else c.toLower

def afterFolded? : List Char → List Char → Option (List Char)
  | [], s => some s
  | _ :: _, [] => none
  | w :: ws, c :: s => if w == foldChar c then afterFolded? ws s else none

end Solwright.Text
