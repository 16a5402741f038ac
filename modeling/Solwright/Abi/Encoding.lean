import Solwright.Abi.Type
import Solwright.Address
import Solwright.Json.Basic

/-!
Arguments in the form that contracts take them: words of thirty-two bytes, first the heads of all
arguments and then the tails of those whose size is not known from their type.
-/

namespace Solwright

open Solwright.Number Solwright.Text

inductive Argument
  | int (n : Int)
  | bool (b : Bool)
  | text (s : String)
  | bytes (bs : List UInt8)
  | list (items : List Argument)
  | other (v : Json)

instance : Inhabited Argument := ⟨.bool false⟩

namespace Argument

mutual

def ofJson : Json → Argument
  | .int n => .int n
  | .bool b => .bool b
  | .str s => .text s
  | .arr vs => .list (ofItems vs)
  | v => .other v

def ofItems : List Json → List Argument
  | [] => []
  | v :: vs => ofJson v :: ofItems vs

end

mutual

/-- The first text in an argument that has half of a pair alone. -/
def illFormed? : Argument → Option (List Nat)
  | .other (.illFormed codes) => some codes
  | .list items => illFormedAmong? items
  | _ => none

def illFormedAmong? : List Argument → Option (List Nat)
  | [] => none
  | a :: as => a.illFormed?.or (illFormedAmong? as)

end

end Argument

namespace AbiType

def within (lo hi n : Int) : Except Fault Unit :=
  if lo ≤ n && n ≤ hi then .ok () else .error (.encoding .outOfRange)

def bounds (signed : Bool) (bits : Nat) : Int × Int :=
  let half : Int := Nat.pow 2 (bits - 1)
  if signed then (-half, half - 1) else (0, Nat.pow 2 bits - 1)

def checkInteger (signed : Bool) (bits : Nat) : Argument → Except Fault Unit
  | .int n => within (bounds signed bits).1 (bounds signed bits).2 n
  | _ => .error (.encoding .wrongKind)

/-- A whole number, a truth value counting as one or zero. -/
def wholeOf? : Argument → Option Int
  | .int n => some n
  | .bool b => some (if b then 1 else 0)
  | _ => none

/-- Checks a value that has to be a number with decimal places. Doubles are never taken. -/
def checkScaled (signed : Bool) (bits places : Nat) (v : Argument) : Except Fault Unit :=
  match wholeOf? v with
  | some n => within (bounds signed bits).1 (bounds signed bits).2 (n * Nat.pow 10 places)
  | none => .error (.encoding .wrongKind)

def checkBytes (most : Option Nat) : Argument → Except Fault Unit
  | .bytes bs => if most.any (· < bs.length) then .error (.encoding .outOfRange) else .ok ()
  | _ => .error (.encoding .wrongKind)

def checkBasic (base : String) (size : TypeSize) (v : Argument) : Except Fault Unit :=
  match base, size, v with
  | "uint", .bits n, v => checkInteger false n v
  | "int", .bits n, v => checkInteger true n v
  | "ufixed", .scaled n places, v => checkScaled false n places v
  | "fixed", .scaled n places, v => checkScaled true n places v
  | "bytes", .bits n, v => checkBytes (some n) v
  | "bytes", _, v => checkBytes none v
  | "bool", _, .bool _ => .ok ()
  | "string", _, .text _ => .ok ()
  | "string", _, .other (.illFormed _) => .ok ()
  | "address", _, .text s =>
    if Address.isAddress s.toList then .ok () else .error (.encoding .wrongKind)
  | _, _, _ => .error (.encoding .wrongKind)

def checkEach (check : Argument → Except Fault Unit) : List Argument → Except Fault Unit
  | [] => .ok ()
  | v :: vs => (check v).bind fun _ => checkEach check vs

mutual

def check : AbiType → Argument → Except Fault Unit
  | .basic base size, v => checkBasic base size v
  | .tuple ts, .list vs =>
    if vs.length = ts.length then checkAll ts vs else .error (.encoding .outOfRange)
  | .array item none, .list vs => checkEach item.check vs
  | .array item (some n), .list vs =>
    (checkEach item.check vs).bind fun _ =>
      if vs.length = n then .ok () else .error (.encoding .outOfRange)
  | _, _ => .error (.encoding .wrongKind)

def checkAll : List AbiType → List Argument → Except Fault Unit
  | t :: ts, v :: vs => (t.check v).bind fun _ => checkAll ts vs
  | _, _ => .ok ()

end

mutual

/-- Whether the size of a value is not known from its type. -/
def isDynamic : AbiType → Bool
  | .basic base size => base == "string" || (base == "bytes" && size == .unsized)
  | .tuple ts => anyDynamic ts
  | .array _ none => true
  | .array item (some _) => item.isDynamic

def anyDynamic : List AbiType → Bool
  | [] => false
  | t :: ts => t.isDynamic || anyDynamic ts

end

def bytesOfNat : Nat → Nat → List UInt8
  | 0, _ => []
  | k + 1, n => (n / Nat.pow 256 k % 256).toUInt8 :: bytesOfNat k n

/-- A number as a word; one below zero is counted from the top. -/
def word (n : Int) : List UInt8 :=
  bytesOfNat 32 (n % Nat.pow 2 256).toNat

def padded (bs : List UInt8) : List UInt8 :=
  bs ++ List.replicate ((32 - bs.length % 32) % 32) 0

def counted (bs : List UInt8) : List UInt8 :=
  word bs.length ++ padded bs

def wordOf (size : TypeSize) (n : Int) : List UInt8 :=
  match size with
  | .scaled _ places => word (n * Nat.pow 10 places)
  | _ => word n

def writeBasic (base : String) (size : TypeSize) : Argument → List UInt8
  | .int n => wordOf size n
  | .bool b => wordOf size (if b then 1 else 0)
  | .text s =>
    if base == "address" then word (Address.number s.toList)
    else counted s.toUTF8.data.toList
  | .bytes bs =>
    if size == .unsized then counted bs else bs ++ List.replicate (32 - bs.length) 0
  | _ => []

/-- One of several values: whether its size is not known from its type, and its bytes. -/
structure Part where
  dynamic : Bool
  bytes : List UInt8

def Part.headSize (p : Part) : Nat :=
  if p.dynamic then 32 else p.bytes.length

def heads : Nat → List Part → List UInt8
  | _, [] => []
  | place, p :: ps =>
    if p.dynamic then word place ++ heads (place + p.bytes.length) ps
    else p.bytes ++ heads place ps

def headsSize : List Part → Nat
  | [] => 0
  | p :: ps => p.headSize + headsSize ps

def tails (ps : List Part) : List UInt8 :=
  (ps.filter (·.dynamic)).flatMap (·.bytes)

/-- Parts together: all heads, then all tails. -/
def assemble (ps : List Part) : List UInt8 :=
  heads (headsSize ps) ps ++ tails ps

mutual

/-- A value of a type that it has been checked against. -/
def write : AbiType → Argument → List UInt8
  | .basic base size, v => writeBasic base size v
  | .tuple ts, .list vs => assemble (writeAll ts vs)
  | .array item none, .list vs =>
    word vs.length ++ assemble (vs.map fun v => ⟨item.isDynamic, item.write v⟩)
  | .array item (some _), .list vs =>
    assemble (vs.map fun v => ⟨item.isDynamic, item.write v⟩)
  | _, _ => []

def writeAll : List AbiType → List Argument → List Part
  | t :: ts, v :: vs => ⟨t.isDynamic, t.write v⟩ :: writeAll ts vs
  | _, _ => []

end

def wordLimit : Nat := Nat.pow 2 256

def placesFit : Nat → List Part → Bool
  | _, [] => true
  | place, p :: ps =>
    if p.dynamic then place < wordLimit && placesFit (place + p.bytes.length) ps
    else placesFit place ps

def partsFit (ps : List Part) : Bool :=
  placesFit (headsSize ps) ps

def basicFits (base : String) (size : TypeSize) : Argument → Bool
  | .text s => base == "address" || s.toUTF8.size < wordLimit
  | .bytes bs => size != .unsized || bs.length < wordLimit
  | _ => true

mutual

/-- Whether every count and every place in a value has a word. -/
def fits : AbiType → Argument → Bool
  | .basic base size, v => basicFits base size v
  | .tuple ts, .list vs => fitAll ts vs && partsFit (writeAll ts vs)
  | .array item none, .list vs =>
    vs.length < wordLimit && vs.all item.fits &&
      partsFit (vs.map fun v => ⟨item.isDynamic, item.write v⟩)
  | .array item (some _), .list vs =>
    vs.all item.fits && partsFit (vs.map fun v => ⟨item.isDynamic, item.write v⟩)
  | _, _ => true

def fitAll : List AbiType → List Argument → Bool
  | t :: ts, v :: vs => t.fits v && fitAll ts vs
  | _, _ => true

end

def readAll : List String → Except EncodingFault (List AbiType)
  | [] => .ok []
  | s :: ss => (read s).bind fun t => (readAll ss).map (t :: ·)

/-- Why a text has no bytes: the first halves of pairs in it that stand together. -/
def halvesRefused (codes : List Nat) : String :=
  let place := (codes.takeWhile (!isHalf ·)).length
  let halves := (codes.drop place).takeWhile isHalf
  let found := match halves with
    | [n] => "character '\\u" ++ String.ofList (hexPadded 4 n) ++ s!"' in position {place}"
    | _ => s!"characters in position {place}-{place + halves.length - 1}"
  s!"'utf-8' codec can't encode {found}: surrogates not allowed"

/-- Writes arguments of types that texts spell. Texts without bytes, and counts and places without a
word, are refused once all arguments have been checked. -/
def encode (types : List String) (arguments : List Argument) : Except Fault (List UInt8) :=
  match readAll types with
  | .error f => .error (.encoding f)
  | .ok ts =>
    (check (.tuple ts) (.list arguments)).bind fun _ =>
      match Argument.illFormedAmong? arguments with
      | some codes => .error (.badValue (halvesRefused codes))
      | none =>
        if fits (.tuple ts) (.list arguments) then .ok (assemble (writeAll ts arguments))
        else .error (.encoding .outOfRange)

end AbiType

end Solwright
