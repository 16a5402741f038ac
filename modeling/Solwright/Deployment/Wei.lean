import Solwright.Fault
import Solwright.Number.Decimal
import Solwright.Number.Shortest
import Solwright.Text.Blank

/-!
Amounts of ether. A price in gwei is a decimal number that becomes whole wei, a fraction being cut
off; a cost in wei is written as ether without loss.
-/

namespace Solwright.Wei

open Solwright.Number Solwright.Text

def largest : Nat := Nat.pow 2 256 - 1

def digitCount (n : Nat) : Nat :=
  if n = 0 then 0 else (decimalDigits n).length

def workingDigits : Nat := 999

def largestPower : Int := 999999

def smallestPower (digits : Nat) : Int :=
  1 - largestPower - digits

/-- A coefficient and exponent rounded to some digits, and to the smallest power of ten; a tie goes
to the even neighbour, and what is far below that power to zero. -/
def rounded (digits : Nat) (n : Nat) (e : Int) : Nat × Int :=
  let drop := max (digitCount n - digits) (smallestPower digits - e).toNat
  if drop = 0 then (n, e)
  else if digitCount n < drop then (0, e + drop)
  else (roundRatio n (Nat.pow 10 drop), e + drop)

/-- The whole part of `n * 10 ^ e`, given that it is not far too large. -/
def wholePart (n : Nat) (e : Int) : Nat :=
  if (digitCount n : Int) + e ≤ 0 then 0 else n * Nat.pow 10 e.toNat / Nat.pow 10 (-e).toNat

def amount (negative : Bool) (n : Nat) (e : Int) : Except Fault Nat :=
  let refused := .error (.badValue "Resulting wei value must be between 0 and 2**256 - 1")
  let (n, e) := rounded workingDigits n e
  let leading : Int := digitCount n + e - 1
  if n = 0 then .ok 0
  else if largestPower < leading then .error .decimalOverflow
  else if negative || 78 < leading then refused
  else
    let whole := wholePart n e
    let part := n * Nat.pow 10 e.toNat % Nat.pow 10 (-e).toNat
    if largest < whole || (whole = largest && part != 0) then refused
    else .ok whole

/-- The number of characters after the first point of a text. -/
def afterPoint? (s : List Char) : Option Nat :=
  match s.dropWhile (· != '.') with
  | [] => none
  | _ :: rest => some rest.length

def belowOne (d : Decimal) : Bool :=
  d.negative || (digitCount d.coefficient : Int) + d.exponent ≤ 0

/-- The amount of a price in gwei. Below one, the exact value is first rounded to as many digits as
its text has after the point. -/
def ofGwei (text : List Char) (d exact : Decimal) : Except Fault Nat :=
  if d.coefficient = 0 then .ok 0
  else
    match (if belowOne d then afterPoint? text else none) with
    | none => amount d.negative d.coefficient (d.exponent + 9)
    | some 0 => .error (.badValue "valid range for prec is [1, MAX_PREC]")
    | some places =>
      let (n, e) := rounded places exact.coefficient (exact.exponent + places)
      amount d.negative n (e + 9 - places)

/-- Whether a decimal number is within the limits of what is read: the power of ten of its leading
digit and its exponent. -/
def isReadable (d : Decimal) : Bool :=
  let limit : Int := Nat.pow 10 18
  (max (digitCount d.coefficient) 1 : Int) + d.exponent ≤ limit && 3 - 2 * limit ≤ d.exponent

def bareText (s : List Char) : List Char :=
  (trim s).filter (· != '_')

def isInfinite (s : List Char) : Bool :=
  let word := String.ofList ((takeSign s).2.map Char.toLower)
  word == "inf" || word == "infinity"

def ofText (s : List Char) : Except Fault Nat :=
  match decimal? digitValue? (bareText s) with
  | some d =>
    if isReadable d then ofGwei s d d else .error .badDecimal
  | none =>
    if isInfinite (bareText s) then
      .error (.badValue "Resulting wei value must be between 0 and 2**256 - 1")
    else .error .badDecimal

def exactDecimal (negative : Bool) (m : Nat) (e : Int) : Decimal :=
  ⟨negative, (exactNumeral m e).digits, (exactNumeral m e).exponent⟩

def ofPrice (v : Json) : Except Fault Nat :=
  match v with
  | .int n => ofGwei [] ⟨n < 0, n.natAbs, 0⟩ ⟨n < 0, n.natAbs, 0⟩
  | .str s => ofText s.toList
  | .float (.finite s m e h) =>
    let short := shortestNumeral m e
    ofGwei ((Binary64.finite s m e h).text ⟨"nan", "inf"⟩)
      (if m = 0 then ⟨s, 0, 0⟩ else ⟨s, short.digits, short.exponent⟩) (exactDecimal s m e)
  | .float (.infinite _) =>
    .error (.badValue "Resulting wei value must be between 0 and 2**256 - 1")
  | .float .nan => .error .badDecimal
  | .illFormed _ => .error .badDecimal
  | _ => .error .wrongKind

/-- The ether of an amount with its digits after the point: at most eighteen, no zero at the end. -/
def etherDigits (n : Nat) : List Char × Nat :=
  let (ds, zeros) := dropTrailingZeros (decimalDigits n)
  if zeros ≤ 18 then (ds, 18 - zeros) else (ds ++ List.replicate (zeros - 18) '0', 0)

/-- An amount in ether: positional down to the sixth place after the point, with a power of ten
below. -/
def etherText (n : Nat) : List Char :=
  let (ds, places) := etherDigits n
  if n = 0 then ['0']
  else if places = 0 then ds
  else if places < ds.length then
    ds.take (ds.length - places) ++ '.' :: ds.drop (ds.length - places)
  else if places ≤ ds.length + 5 then ['0', '.'] ++ List.replicate (places - ds.length) '0' ++ ds
  else
    let power := 'E' :: '-' :: decimalDigits (places + 1 - ds.length)
    match ds with
    | [] => []
    | [d] => d :: power
    | d :: r => d :: '.' :: r ++ power

def inEther (n : Int) : Except Fault String :=
  if n < 0 || (largest : Int) < n then
    .error (.badValue "value must be between 0 and 2**256 - 1")
  else .ok (String.ofList (etherText n.toNat))

end Solwright.Wei
