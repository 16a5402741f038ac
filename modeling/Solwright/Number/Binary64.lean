/-!
Double precision numbers as data: a sign, a significand and a binary exponent in their one written
form. A decimal numeral is read to the nearest of them, a tie going to the even significand.
-/

namespace Solwright.Number

/-- The one written form of a finite double `m * 2 ^ e`: fifty-three bits with the top one set, or
fewer bits at the lowest exponent. -/
def Canonical (m : Nat) (e : Int) : Prop :=
  (m < Nat.pow 2 52 ∧ e = -1074) ∨
    (Nat.pow 2 52 ≤ m ∧ m < Nat.pow 2 53 ∧ -1074 ≤ e ∧ e ≤ 971)

instance (m : Nat) (e : Int) : Decidable (Canonical m e) :=
  inferInstanceAs (Decidable (_ ∨ _))

inductive Binary64
  | finite (negative : Bool) (m : Nat) (e : Int) (canonical : Canonical m e)
  | infinite (negative : Bool)
  | nan
  deriving DecidableEq

/-- The quotient of two numbers, rounded to the nearest whole number, a tie to the even one. -/
def roundRatio (num den : Nat) : Nat :=
  let q := num / den
  let r := num % den
  if den < 2 * r || (den == 2 * r && q % 2 == 1) then q + 1 else q

namespace Binary64

def zero (negative : Bool) : Binary64 :=
  .finite negative 0 (-1074) (by decide)

/-- `m * 2 ^ e` where that is a double in its written form, and infinity beyond the largest. -/
def ofParts (negative : Bool) (m : Nat) (e : Int) : Binary64 :=
  if h : Canonical m e then .finite negative m e h else .infinite negative

def leadingBit (num den : Nat) : Int :=
  let l : Int := (num.log2 : Int) - den.log2
  if den * Nat.pow 2 l.toNat ≤ num * Nat.pow 2 (-l).toNat then l else l - 1

def ofRatio (negative : Bool) (num den : Nat) : Binary64 :=
  if num = 0 then zero negative else
  let e := max (leadingBit num den - 52) (-1074)
  let m := roundRatio (num * Nat.pow 2 (-e).toNat) (den * Nat.pow 2 e.toNat)
  if m = Nat.pow 2 53 then ofParts negative (Nat.pow 2 52) (e + 1) else ofParts negative m e

/-- The double nearest to `d * 10 ^ k`. Values far outside the range are settled by their size
alone. -/
def ofDecimal (negative : Bool) (d : Nat) (k : Int) : Binary64 :=
  if d = 0 || k + (d.log2 / 3 + 1 : Nat) < -330 then zero negative
  else if 310 < k then .infinite negative
  else ofRatio negative (d * Nat.pow 10 k.toNat) (Nat.pow 10 (-k).toNat)

/-- Below zero, by its sign. -/
def negative : Binary64 → Bool
  | .finite s _ _ _ => s
  | .infinite s => s
  | .nan => false

def isFinite : Binary64 → Bool
  | .finite .. => true
  | _ => false

def isZero : Binary64 → Bool
  | .finite _ m _ _ => m == 0
  | _ => false

def truncate (negative : Bool) (m : Nat) (e : Int) : Int :=
  let n : Int := (m * Nat.pow 2 e.toNat / Nat.pow 2 (-e).toNat : Nat)
  if negative then -n else n

def toInt? : Binary64 → Option Int
  | .finite s m e _ =>
    if (m * Nat.pow 2 e.toNat) % Nat.pow 2 (-e).toNat = 0 then some (truncate s m e) else none
  | _ => none

def notPositive : Binary64 → Bool
  | .finite s m _ _ => s || m == 0
  | .infinite s => s
  | .nan => false

end Binary64

end Solwright.Number
