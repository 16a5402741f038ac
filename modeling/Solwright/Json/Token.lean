import Solwright.Json.Basic
import Solwright.Number.Integer
import Solwright.Text.Scan

/-!
The tokens of a JSON text, each with its place: how many characters stand before it. The first
character that starts no token ends the list, and so does a text or numeral that cannot be read;
whether such an ending is a fault, and which one, depends on what was expected there.
-/

namespace Solwright.Json

open Solwright.Number Solwright.Text

/-- Why a text is not JSON. All but the last two name the place of the fault. -/
inductive Fault
  | byteOrderMark
  | expectingValue (place : Nat)
  | expectingName (place : Nat)
  | expectingColon (place : Nat)
  | expectingComma (place : Nat)
  | extraData (place : Nat)
  | unterminated (place : Nat)
  | controlCharacter (place : Nat)
  | escape (place : Nat)
  | unicodeEscape (place : Nat)
  | longNumeral (digits : Nat)
  | nesting (inObject : Bool)
  deriving DecidableEq

inductive Token
  | openArray
  | closeArray
  | openObject
  | closeObject
  | comma
  | colon
  | scalar (v : Json)
  | text (codes : List Nat)
  | brokenText (f : Fault)
  | brokenNumeral (f : Fault)
  | stray

def isSpace (c : Char) : Bool :=
  c == ' ' || c == '\t' || c == '\n' || c == '\r'

def hexValue? (c : Char) : Option Nat :=
  let n := c.toNat
  if '0'.toNat ≤ n && n ≤ '9'.toNat then some (n - '0'.toNat)
  else if 'a'.toNat ≤ n && n ≤ 'f'.toNat then some (n - 'a'.toNat + 10)
  else if 'A'.toNat ≤ n && n ≤ 'F'.toNat then some (n - 'A'.toNat + 10)
  else none

def unit? (a b c d : Char) : Option Nat := do
  let w ← hexValue? a
  let x ← hexValue? b
  let y ← hexValue? c
  let z ← hexValue? d
  return ((w * 16 + x) * 16 + y) * 16 + z

def escaped? (c : Char) : Option Char :=
  if c == '"' || c == '\\' || c == '/' then some c
  else if c == 'b' then some (Char.ofNat 8)
  else if c == 'f' then some (Char.ofNat 12)
  else if c == 'n' then some '\n'
  else if c == 'r' then some '\r'
  else if c == 't' then some '\t'
  else none

/-- The code points of a quoted text whose opening quote stood at `start`, what follows its closing
quote, and the place of that. The code points read so far are given, the last one first. -/
def quotedText (start : Nat) : Nat → List Nat → List Char →
    Except Fault (List Nat × List Char × Nat)
  | _, _, [] => .error (.unterminated start)
  | p, ns, '"' :: s => .ok (ns.reverse, s, p + 1)
  | p, ns, '\\' :: 'u' :: a :: b :: c :: d :: s =>
    match unit? a b c d, s with
    | none, _ => .error (.unicodeEscape (p + 1))
    | some _, [] => .error (.unicodeEscape (p + 1))
    | some n, e :: s => quotedText start (p + 6) (pushUnit n ns) (e :: s)
  | p, ns, '\\' :: c :: s =>
    if c == 'u' then .error (.unicodeEscape (p + 1)) else
    match escaped? c with
    | some e => quotedText start (p + 2) (e.toNat :: ns) s
    | none => .error (.escape p)
  | _, _, ['\\'] => .error (.unterminated start)
  | p, ns, c :: s =>
    if c.toNat < 0x20 then .error (.controlCharacter p)
    else quotedText start (p + 1) (c.toNat :: ns) s

/-- The parts of a numeral as written, and how many characters it takes. -/
structure NumeralParts where
  negative : Bool
  whole : List Char
  fraction : List Char
  /-- The sign and digits of a power of ten. -/
  power : Option (Bool × List Char)
  width : Nat

def takeFraction : List Char → List Char × List Char
  | '.' :: d :: s =>
    if d.isDigit then (d :: s.takeWhile Char.isDigit, s.dropWhile Char.isDigit)
    else ([], '.' :: d :: s)
  | s => ([], s)

def takePower (s : List Char) : Option (Bool × List Char) × Nat × List Char :=
  match s with
  | e :: t =>
    if e == 'e' || e == 'E' then
      let (negative, u) := takeSign t
      let signWidth := if u.length < t.length then 1 else 0
      let ds := u.takeWhile Char.isDigit
      if ds.isEmpty then (none, 0, s)
      else (some (negative, ds), 1 + signWidth + ds.length, u.dropWhile Char.isDigit)
    else (none, 0, s)
  | [] => (none, 0, s)

/-- The whole part of a numeral: no zero stands before another digit. -/
def takeWhole? : List Char → Option (List Char × List Char)
  | '0' :: s => some (['0'], s)
  | d :: s =>
    if d.isDigit then some (d :: s.takeWhile Char.isDigit, s.dropWhile Char.isDigit) else none
  | [] => none

def takeUnsigned? (negative : Bool) (s : List Char) : Option (NumeralParts × List Char) :=
  (takeWhole? s).map fun (whole, t) =>
    let (fraction, t) := takeFraction t
    let (power, powerWidth, t) := takePower t
    let fractionWidth := if fraction.isEmpty then 0 else fraction.length + 1
    let signWidth := if negative then 1 else 0
    (⟨negative, whole, fraction, power,
      signWidth + whole.length + fractionWidth + powerWidth⟩, t)

def takeNumeral? : List Char → Option (NumeralParts × List Char)
  | '-' :: s => takeUnsigned? true s
  | s => takeUnsigned? false s

def digitsValue (ds : List Char) : Nat :=
  ds.foldl (fun n d => 10 * n + (d.toNat - '0'.toNat)) 0

/-- A numeral with a fraction or a power is a double, any other a whole number. -/
def NumeralParts.token (n : NumeralParts) : Token :=
  match n.fraction, n.power with
  | [], none =>
    if digitLimit < n.whole.length then .brokenNumeral (.longNumeral n.whole.length)
    else
      let v : Int := digitsValue n.whole
      .scalar (.int (if n.negative then -v else v))
  | fraction, power =>
    let exponent : Int := match power with
      | some (true, ds) => -(digitsValue ds : Int)
      | some (false, ds) => digitsValue ds
      | none => 0
    .scalar (.float (Binary64.ofDecimal n.negative (digitsValue (n.whole ++ fraction))
      (exponent - fraction.length)))

def literals : List (List Char × Json) :=
  [("null".toList, .null), ("true".toList, .bool true), ("false".toList, .bool false),
   ("NaN".toList, .float .nan), ("Infinity".toList, .float (.infinite false)),
   ("-Infinity".toList, .float (.infinite true))]

def takeLiteral? (s : List Char) : Option (Json × Nat × List Char) :=
  literals.findSome? fun (w, v) => (after? w s).map (v, w.length, ·)

def mark? (c : Char) : Option Token :=
  if c == '[' then some .openArray
  else if c == ']' then some .closeArray
  else if c == '{' then some .openObject
  else if c == '}' then some .closeObject
  else if c == ',' then some .comma
  else if c == ':' then some .colon
  else none

/-- The token at the start of a text that begins with no white space, the place after it, and what
stands there; nothing follows a token that ends the list. -/
def firstToken (place : Nat) (c : Char) (s : List Char) : Token × Nat × List Char :=
  match mark? c with
  | some t => (t, place + 1, s)
  | none =>
    if c == '"' then
      match quotedText place (place + 1) [] s with
      | .ok (codes, rest, next) => (.text codes, next, rest)
      | .error f => (.brokenText f, place + 1, [])
    else
      match takeLiteral? (c :: s) with
      | some (v, width, rest) => (.scalar v, place + width, rest)
      | none =>
        match takeNumeral? (c :: s) with
        | some (n, rest) => (n.token, place + n.width, rest)
        | none => (.stray, place + 1, [])

/-- The tokens of a text with their places; a text of `n` characters takes at most `n` steps. -/
def tokensWithin : Nat → Nat → List Char → List (Token × Nat)
  | _, _, [] => []
  | 0, _, _ => []
  | steps + 1, place, c :: s =>
    if isSpace c then tokensWithin steps (place + 1) s
    else
      let (t, next, rest) := firstToken place c s
      (t, place) :: tokensWithin steps next rest

def tokens (s : List Char) : List (Token × Nat) :=
  tokensWithin s.length 0 s

end Solwright.Json
