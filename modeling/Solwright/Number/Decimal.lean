import Solwright.Number.Binary64
import Solwright.Number.Integer

/-!
Decimal numerals with a point and a power of ten, and the words for what is no finite number. Which
characters are digits is left open.
-/

namespace Solwright.Number

open Solwright.Text

/-- A decimal number `coefficient * 10 ^ exponent`, or below zero. -/
structure Decimal where
  negative : Bool
  coefficient : Nat
  exponent : Int
  deriving DecidableEq

/-- The value and the length of the run of digits at the start of a text, and what follows it. The
first two arguments are the value and length so far. -/
def digitsFrom (digit? : Char → Option Nat) (value length : Nat) :
    List Char → Nat × Nat × List Char
  | [] => (value, length, [])
  | c :: s =>
    match digit? c with
    | some d => digitsFrom digit? (10 * value + d) (length + 1) s
    | none => (value, length, c :: s)

/-- A power of ten at the end of a numeral; no text stands for the power zero. -/
def power? (digit? : Char → Option Nat) : List Char → Option Int
  | [] => some 0
  | c :: s =>
    if c == 'e' || c == 'E' then
      let (negative, s) := takeSign s
      match digitsFrom digit? 0 0 s with
      | (_, 0, _) => none
      | (n, _, []) => some (if negative then -n else n)
      | _ => none
    else none

def fraction? (digit? : Char → Option Nat) (value length : Nat) (s : List Char) :
    Option (Nat × Int) :=
  let (coefficient, total, rest) := digitsFrom digit? value length s
  if total = 0 then none else
  (power? digit? rest).map fun e => (coefficient, e - (total - length : Nat))

/-- Reads an unsigned numeral: digits with at most one point among them and an optional power. -/
def unsigned? (digit? : Char → Option Nat) (s : List Char) : Option (Nat × Int) :=
  match digitsFrom digit? 0 0 s with
  | (value, length, '.' :: s) => fraction? digit? value length s
  | (value, length, s) => if length = 0 then none else (power? digit? s).map (value, ·)

def decimal? (digit? : Char → Option Nat) (s : List Char) : Option Decimal :=
  let (negative, s) := takeSign s
  (unsigned? digit? s).map fun (n, e) => ⟨negative, n, e⟩

def asciiDigit? (c : Char) : Option Nat :=
  if c.isDigit then some (c.toNat - '0'.toNat) else none

def binary64? (s : List Char) : Option Binary64 :=
  match decimal? asciiDigit? s with
  | some d => some (.ofDecimal d.negative d.coefficient d.exponent)
  | none =>
    let (negative, word) := takeSign s
    let word := String.ofList (word.map Char.toLower)
    if word == "inf" || word == "infinity" then some (.infinite negative)
    else if word == "nan" then some .nan
    else none

end Solwright.Number
