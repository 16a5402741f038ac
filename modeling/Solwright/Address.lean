import Solwright.Keccak
import Solwright.Text.Hex

/-!
Addresses: forty hexadecimal digits, with or without a mark. In the checked spelling the case of
each letter is a digit of the hash of the address.
-/

namespace Solwright.Address

open Solwright.Text

def isAddress (s : List Char) : Bool :=
  let digits := dropHexMark s
  digits.length == 40 && digits.all fun c => (hexDigit? c).isSome

def plainDigits (s : List Char) : List Char :=
  (dropHexMark s).map Char.toLower

/-- A letter in the case that a digit of the hash asks for. -/
def checkedChar (c h : Char) : Char :=
  if 8 ≤ (hexDigit? h).getD 0 then c.toUpper else c

def checked (s : List Char) : List Char :=
  let digits := plainDigits s
  let hash := hexText (Keccak.hash (digits.map fun c => c.toNat.toUInt8))
  '0' :: 'x' :: digits.zipWith checkedChar hash

def number (s : List Char) : Nat :=
  (dropHexMark s).foldl (fun n c => 16 * n + (hexDigit? c).getD 0) 0

end Solwright.Address
