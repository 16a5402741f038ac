import Solwright.Json.Reader

/-!
Reading JSON from a text that need not be well formed. Half a pair has a place only inside quotes,
where it stands for itself; so the tokens are those of the text with every half replaced, but for
the code points of what is quoted.
-/

namespace Solwright.Json

open Solwright.Text

/-- Adds an escaped unit to the code points read so far, the last one first, each with whether it was
escaped. Only units that were both escaped make a pair. -/
def pushEscaped (n : Nat) : List (Nat × Bool) → List (Nat × Bool)
  | (h, true) :: read =>
    if isHighHalf h && isLowHalf n then
      (0x10000 + (h - 0xD800) * 0x400 + (n - 0xDC00), false) :: read
    else (n, true) :: (h, true) :: read
  | read => (n, true) :: read

/-- The code points of a quoted text whose quotes are in order, from behind the opening one. -/
def codesInQuotes (read : List (Nat × Bool)) : List Nat → List Nat
  | 0x5C :: 0x75 :: a :: b :: c :: d :: s =>
    let unit := unit? (shownCode a) (shownCode b) (shownCode c) (shownCode d)
    codesInQuotes (pushEscaped (unit.getD 0) read) s
  | 0x5C :: c :: s => codesInQuotes (((escaped? (shownCode c)).elim c Char.toNat, false) :: read) s
  | 0x22 :: _ => (read.map (·.1)).reverse
  | n :: s => codesInQuotes ((n, false) :: read) s
  | [] => (read.map (·.1)).reverse

/-- A token of a text in which every half is replaced, as the text itself has it. -/
def restored (ns : List Nat) : Token × Nat → Token × Nat
  | (.text _, place) => (.text (codesInQuotes [] (ns.drop (place + 1))), place)
  | t => t

def readDecodedCodes (limit : Nat) (ns : List Nat) : Except Fault Json :=
  Reader.start.run limit ns.length ((tokens (shownCodes ns)).map (restored ns))

def readCodes (limit : Nat) (ns : List Nat) : Except Fault Json :=
  if ns.head? == some 0xFEFF then .error .byteOrderMark else readDecodedCodes limit ns

def readDecodedRaw (limit : Nat) : RawText → Except Fault Json
  | .formed s => readDecoded limit s.toList
  | .illFormed ns => readDecodedCodes limit ns

end Solwright.Json
