import Solwright.Number.Binary64

/-!
The written form of a double: the fewest decimal digits that read back as the same double, and of
several such numerals the nearest.
-/

namespace Solwright.Number

/-- A positive decimal numeral `digits * 10 ^ exponent`. -/
structure Numeral where
  digits : Nat
  exponent : Int
  deriving DecidableEq

/-- How many digits a ratio has before the point; zero or less counts the zeros after it. -/
def pointPlace (num den : Nat) : Int :=
  if den ≤ num then ((Nat.toDigits 10 (num / den)).length : Int)
  else
    let l := (Nat.toDigits 10 (den / num)).length
    if den = num * Nat.pow 10 (l - 1) then 2 - (l : Int) else 1 - (l : Int)

def Numeral.reads (n : Numeral) (v : Binary64) : Bool :=
  Binary64.ofDecimal false n.digits n.exponent == v

/-- The nearer of the two numerals of a length around a ratio that reads back as its double. -/
def numeralOfLength? (v : Binary64) (num den : Nat) (place : Int) (length : Nat) :
    Option Numeral :=
  let k := place - length
  let scaled := num * Nat.pow 10 (-k).toNat
  let unit := den * Nat.pow 10 k.toNat
  let below : Numeral := ⟨scaled / unit, k⟩
  let above : Numeral := ⟨scaled / unit + 1, k⟩
  match below.reads v, above.reads v with
  | true, true => some (if roundRatio scaled unit = below.digits then below else above)
  | true, false => some below
  | false, true => some above
  | false, false => none

def exactNumeral (m : Nat) (e : Int) : Numeral :=
  ⟨m * Nat.pow 2 e.toNat * Nat.pow 5 (-e).toNat, min e 0⟩

/-- The shortest numeral that reads back as the double `m * 2 ^ e`. -/
def shortestNumeral (m : Nat) (e : Int) : Numeral :=
  let v := Binary64.ofParts false m e
  let num := m * Nat.pow 2 e.toNat
  let den := Nat.pow 2 (-e).toNat
  let place := pointPlace num den
  ((List.range 17).findSome? fun i => numeralOfLength? v num den place (i + 1)).getD
    (exactNumeral m e)

structure SpecialNames where
  nan : String
  infinity : String

def dropTrailingZeros (ds : List Char) : List Char × Nat :=
  let r := ds.reverse
  ((r.dropWhile (· == '0')).reverse, (r.takeWhile (· == '0')).length)

def decimalDigits (n : Nat) : List Char :=
  Nat.toDigits 10 n

def powerText (e : Int) : List Char :=
  let ds := decimalDigits e.natAbs
  'e' :: (if e < 0 then '-' else '+') :: (if ds.length < 2 then '0' :: ds else ds)

/-- A numeral in positional form from `0.0001` up to sixteen digits before the point, always with a
point, and with a power of ten elsewhere. -/
def Numeral.text (n : Numeral) : List Char :=
  let (ds, zeros) := dropTrailingZeros (decimalDigits n.digits)
  let place : Int := ds.length + zeros + n.exponent
  if n.digits = 0 then ['0', '.', '0']
  else if -4 < place && place ≤ 16 then
    if place ≤ 0 then ['0', '.'] ++ List.replicate (-place).toNat '0' ++ ds
    else
      let whole := place.toNat
      if ds.length ≤ whole then ds ++ List.replicate (whole - ds.length) '0' ++ ['.', '0']
      else ds.take whole ++ '.' :: ds.drop whole
  else
    match ds with
    | [] => []
    | [d] => d :: powerText (place - 1)
    | d :: r => d :: '.' :: r ++ powerText (place - 1)

def Binary64.text (names : SpecialNames) : Binary64 → List Char
  | .finite s m e _ => (if s then ['-'] else []) ++ (shortestNumeral m e).text
  | .infinite s => (if s then ['-'] else []) ++ names.infinity.toList
  | .nan => names.nan.toList

end Solwright.Number
