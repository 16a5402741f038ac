import Solwright.Text.Blank
import Solwright.Text.Digit
import Solwright.Text.Quoted

/-!
Whole numbers in decimal: their written form, and the numerals that are read as one. A numeral may
have white space around it, a sign, digits of any script and single underscores between digits.
-/

namespace Solwright.Number

open Solwright.Text

def integerText (n : Int) : String :=
  toString n

def digitLimit : Nat := 4300

inductive IntegerFault
  | tooLong (digits : Nat)
  | notANumeral
  deriving DecidableEq

/-- The value of a run of digits in which an underscore may stand between two digits. -/
def digitRun? : Nat → List Char → Option Nat
  | n, [] => some n
  | n, '_' :: d :: s => (digitValue? d).bind fun v => digitRun? (10 * n + v) s
  | n, d :: s => (digitValue? d).bind fun v => digitRun? (10 * n + v) s

def natural? : List Char → Option Nat
  | [] => none
  | d :: s => (digitValue? d).bind fun v => digitRun? v s

def takeSign : List Char → Bool × List Char
  | '-' :: s => (true, s)
  | '+' :: s => (false, s)
  | s => (false, s)

/-- Whether every underscore of a text stands alone and inside it. -/
def loneUnderscores (s : List Char) : Bool :=
  s.head? != some '_' && s.getLast? != some '_' && !pairs s
where
  /-- Whether two underscores stand side by side. -/
  pairs : List Char → Bool
    | '_' :: '_' :: _ => true
    | _ :: s => pairs s
    | [] => false

def inNumeral (c : Char) : Bool :=
  c == '_' || (digitValue? c).isSome

/-- Reads a whole number. Too many digits in front are refused before anything after them is
looked at, if the underscores among them stand between digits. -/
def readInteger (s : List Char) : Except IntegerFault Int :=
  let (negative, ds) := takeSign (trimBy isNumeralBlank s)
  let front := ds.takeWhile inNumeral
  let count := (front.filter (· != '_')).length
  if loneUnderscores front && digitLimit < count then .error (.tooLong count) else
  match natural? ds with
  | some n => .ok (if negative then -n else n)
  | none => .error .notANumeral

def shownLength : Nat := 200

def IntegerFault.message (inQuotes : List Char) : IntegerFault → String
  | .tooLong n =>
    s!"Exceeds the limit ({digitLimit} digits) for integer string conversion: value has {n} digits"
      ++ "; use sys.set_int_max_str_digits() to increase the limit"
  | .notANumeral =>
    "invalid literal for int() with base 10: "
      ++ String.ofList (inQuotes.take shownLength)

end Solwright.Number
