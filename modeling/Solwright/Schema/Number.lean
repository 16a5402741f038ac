import Solwright.Number.Decimal
import Solwright.Schema

/-!
Checks for numbers. Texts are read as numbers, whole doubles count as whole numbers, and a truth
value counts as one or zero.
-/

namespace Solwright.Schema

open Solwright.Number Solwright.Text

/-- Text without the underscores inside it, if each of them stands alone. -/
def unspaced (s : List Char) : List Char :=
  if loneUnderscores s then s.filter (· != '_') else s

def withoutZeroFraction (s : List Char) : List Char :=
  match s.dropWhile (· != '.') with
  | '.' :: zeros =>
    if !zeros.isEmpty && zeros.all (· == '0') then s.takeWhile (· != '.') else s
  | _ => s

/-- What remains of a numeral after its leading zeros and the underscores among them. The last of
these stays where a point or nothing follows; a minus may follow them. -/
def afterZeros (last : Char) : List Char → Option (List Char)
  | [] => some [last]
  | c :: s =>
    if c == '0' || c == '_' then afterZeros c s
    else if c.isDigit || c == '-' then some (c :: s)
    else if c == '.' then some (last :: c :: s)
    else none

def bare? (s : List Char) : Option (List Char) :=
  let s := match s with
    | '+' :: '-' :: _ => []
    | '+' :: s => s
    | s => s
  match s with
  | '-' :: _ => some s
  | '0' :: rest => afterZeros '0' rest
  | c :: _ => if c.isDigit then some s else none
  | [] => none

/-- Reads a strict numeral: a minus and digits, no zero before another digit. Too many characters in
front are refused before anything after them is looked at. -/
def strictWhole (s : List Char) : Except Cause Int :=
  let (negative, digits) := match s with
    | '-' :: s => (true, s)
    | s => (false, s)
  match digits, digitsFrom asciiDigit? 0 0 digits with
  | '0' :: _, (_, length, rest) =>
    if length = 1 && rest.isEmpty then .ok 0 else .error .unclearWhole
  | _, (n, length, rest) =>
    if digitLimit < length + (if negative then 1 else 0) then .error .tooLong
    else if length = 0 || !rest.isEmpty then .error .unclearWhole
    else .ok (if negative then -n else n)

/-- Reads a whole number from a text. Underscores are only left out where the text cannot be read
with them. -/
def wholeOfText (s : List Char) : Except Cause Int :=
  match (bare? (trimBy isNumeralBlank s)).map withoutZeroFraction with
  | none => .error .unclearWhole
  | some s =>
    match strictWhole s with
    | .error .unclearWhole => (strictWhole (unspaced s)).mapError fun _ => .unclearWhole
    | outcome => outcome

def whole (v : Json) : Checked Int :=
  match v with
  | .int n => .accept n
  | .bool b => .accept (if b then 1 else 0)
  | .float x =>
    match x.toInt? with
    | some n => if n.natAbs < Nat.pow 2 63 then .accept n else .refuse .tooLong v
    | none => .refuse (if x.isFinite then .fractional else .notFinite) v
  | .str s =>
    match wholeOfText s.toList with
    | .ok n => .accept n
    | .error cause => .refuse cause v
  | .illFormed _ => .refuse .notUnicode v
  | _ => .refuse .notWhole v

def natural (v : Json) : Checked Int :=
  (whole v).andThen fun n => if n < 0 then .refuse .negative v else .accept n

def number (v : Json) : Checked Binary64 :=
  match v with
  | .float x => .accept x
  | .bool b => .accept (.ofDecimal false (if b then 1 else 0) 0)
  | .int n =>
    match Binary64.ofDecimal (n < 0) n.natAbs 0 with
    | .infinite _ => .refuse .notNumber v
    | x => .accept x
  | .str s =>
    match binary64? (trimBy isNumeralBlank s.toList) |>.or (binary64? (unspaced s.toList)) with
    | some x => .accept x
    | none => .refuse .unclearNumber v
  | .illFormed _ => .refuse .notUnicode v
  | _ => .refuse .notNumber v

end Solwright.Schema
