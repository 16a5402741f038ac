import Solwright.Text.Printable
import Solwright.Text.Unit

/-!
Quoted text as it stands in messages: single quotes unless the text holds only single ones, and
escapes for what cannot be shown.
-/

namespace Solwright.Text

/-- Hexadecimal digits of a number, lower case, padded with zeros to a width. -/
def hexPadded (width n : Nat) : List Char :=
  let ds := Nat.toDigits 16 n
  List.replicate (width - ds.length) '0' ++ ds

def numberEscape (c : Char) : List Char :=
  let n := c.toNat
  if n < 0x100 then '\\' :: 'x' :: hexPadded 2 n
  else if n < 0x10000 then '\\' :: 'u' :: hexPadded 4 n
  else '\\' :: 'U' :: hexPadded 8 n

def quotedChar (quote c : Char) : List Char :=
  if c == quote || c == '\\' then ['\\', c]
  else if c == '\n' then ['\\', 'n']
  else if c == '\r' then ['\\', 'r']
  else if c == '\t' then ['\\', 't']
  else if isPrintable c then [c]
  else numberEscape c

def quoteFor (s : List Char) : Char :=
  if s.contains '\'' && !s.contains '"' then '"' else '\''

def quoted (s : List Char) : List Char :=
  let q := quoteFor s
  q :: s.flatMap (quotedChar q) ++ [q]

/-- One code point inside quotes of the given kind. Half a pair has no visible form. -/
def quotedCode (quote : Char) (n : Nat) : List Char :=
  if isHalf n then '\\' :: 'u' :: hexPadded 4 n else quotedChar quote (Char.ofNat n)

def quotedCodes (ns : List Nat) : List Char :=
  let q := quoteFor (shownCodes ns)
  q :: ns.flatMap (quotedCode q) ++ [q]

end Solwright.Text
