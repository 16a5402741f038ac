import Solwright.Fault
import Solwright.Number.Integer
import Solwright.Text.Quoted

/-!
The types of constructor arguments: how they are spelled, which spellings stand for others, which of
them are well formed and which can be written.
-/

namespace Solwright

open Solwright.Number Solwright.Text

inductive TypeSize
  | unsized
  | bits (n : Nat)
  | scaled (n places : Nat)
  deriving DecidableEq

inductive AbiType
  | basic (base : String) (size : TypeSize)
  | tuple (components : List AbiType)
  | array (item : AbiType) (length : Option Nat)

def TypeSize.text : TypeSize → String
  | .unsized => ""
  | .bits n => toString n
  | .scaled n places => s!"{n}x{places}"

namespace AbiType

mutual

def text : AbiType → String
  | .basic base size => base ++ size.text
  | .tuple ts => "(" ++ joined "," (texts ts) ++ ")"
  | .array item none => item.text ++ "[]"
  | .array item (some n) => s!"{item.text}[{n}]"

def texts : List AbiType → List String
  | [] => []
  | t :: ts => t.text :: texts ts

end

def positive? : List Char → Option (Nat × List Char)
  | [] => none
  | c :: s =>
    if '1' ≤ c && c ≤ '9' then
      let digits := c :: s.takeWhile Char.isDigit
      some (digits.foldl (fun n c => 10 * n + (c.toNat - '0'.toNat)) 0, s.dropWhile Char.isDigit)
    else none

def size (s : List Char) : TypeSize × List Char :=
  match positive? s with
  | none => (.unsized, s)
  | some (n, rest) =>
    match rest with
    | 'x' :: r =>
      match positive? r with
      | some (places, r) => (.scaled n places, r)
      | none => (.bits n, rest)
    | _ => (.bits n, rest)

/-- The lengths of arrays behind a type, and what follows. The first argument bounds their
number. -/
def lengths : Nat → List Char → List (Option Nat) × List Char
  | 0, s => ([], s)
  | n + 1, s =>
    match s with
    | '[' :: ']' :: r => let (ls, rest) := lengths n r; (none :: ls, rest)
    | '[' :: r =>
      match positive? r with
      | some (l, ']' :: r) => let (ls, rest) := lengths n r; (some l :: ls, rest)
      | _ => ([], s)
    | _ => ([], s)

def withLengths (t : AbiType) (s : List Char) : AbiType × List Char :=
  let (ls, rest) := lengths s.length s
  (ls.foldl array t, rest)

mutual

/-- A type at the start of a text, and what follows. The first argument bounds the nesting. -/
def scan? : Nat → List Char → Option (AbiType × List Char)
  | 0, _ => none
  | n + 1, '(' :: s => (scanItems? n s).map fun (ts, rest) => withLengths (tuple ts) rest
  | _ + 1, s =>
    let base := s.takeWhile Char.isAlpha
    if base.isEmpty then none else
    let (sz, rest) := size (s.dropWhile Char.isAlpha)
    some (withLengths (basic (String.ofList base) sz) rest)

def scanItems? : Nat → List Char → Option (List AbiType × List Char)
  | 0, _ => none
  | n + 1, s =>
    match scan? n s with
    | some (t, ')' :: rest) => some ([t], rest)
    | some (t, ',' :: rest) => (scanItems? n rest).map fun (ts, rest) => (t :: ts, rest)
    | _ => none

end

def ofText? (s : String) : Option AbiType :=
  match scan? (2 * s.length + 2) s.toList with
  | some (t, []) => some t
  | _ => none

/-- Basic types that stand for others. -/
def shorthand? : String → Option (String × TypeSize)
  | "int" => some ("int", .bits 256)
  | "uint" => some ("uint", .bits 256)
  | "fixed" => some ("fixed", .scaled 128 18)
  | "ufixed" => some ("ufixed", .scaled 128 18)
  | "function" => some ("bytes", .bits 24)
  | "byte" => some ("bytes", .bits 1)
  | _ => none

mutual

def normal : AbiType → AbiType
  | .basic base .unsized =>
    match shorthand? base with
    | some (b, size) => .basic b size
    | none => .basic base .unsized
  | .basic base size => .basic base size
  | .tuple ts => .tuple (normals ts)
  | .array item length => .array item.normal length

def normals : List AbiType → List AbiType
  | [] => []
  | t :: ts => t.normal :: normals ts

end

def sizeFlaw? (base : String) (size : TypeSize) : Option String :=
  match base, size with
  | "string", .unsized => none
  | "string", _ => some "string type cannot have suffix"
  | "bytes", .unsized => none
  | "bytes", .bits n => if 32 < n then some "maximum 32 bytes for fixed-length bytes" else none
  | "bytes", _ => some "bytes type must have either no suffix or a numerical suffix"
  | "address", .unsized => none
  | "address", _ => some "address cannot have suffix"
  | "hash", .bits _ => none
  | "hash", _ => some "hash type must have numerical suffix"
  | _, _ =>
    if base == "int" || base == "uint" then
      match size with
      | .bits n =>
        if n < 8 || 256 < n then some "integer size out of bounds (max 256 bits)"
        else if n % 8 != 0 then some "integer size must be multiple of 8"
        else none
      | _ => some "integer type must have numerical suffix"
    else if base == "fixed" || base == "ufixed" then
      match size with
      | .scaled n places =>
        if n < 8 || 256 < n then some "fixed size out of bounds (max 256 bits)"
        else if n % 8 != 0 then some "fixed size must be multiple of 8"
        else if places < 1 || 80 < places then
          some s!"fixed exponent size out of bounds, {places} must be in 1-80"
        else none
      | _ => some "fixed type must have suffix of form <bits>x<exponent>, e.g. 128x19"
    else none

mutual

/-- The first flaw of a type: the spelling that has it, its place in the whole, and the flaw. The
spelling is that of the arrays around the type. -/
def flaw? (spelling : String) (place : Nat) : AbiType → Option (String × Nat × String)
  | .basic base size => (sizeFlaw? base size).map fun reason => (spelling, place, reason)
  | .tuple ts => firstFlaw? (place + 1) ts
  | .array item _ => item.flaw? spelling place

def firstFlaw? (place : Nat) : List AbiType → Option (String × Nat × String)
  | [] => none
  | t :: ts => (t.flaw? t.text place).or (firstFlaw? (place + t.text.length + 1) ts)

end

def validate (t : AbiType) : Except EncodingFault Unit :=
  match t.flaw? t.text 0 with
  | none => .ok ()
  | some (spelling, place, reason) =>
    .error (.badType s!"For '{spelling}' type at column {place + 1} in '{t.text}': {reason}")

def writable : List String :=
  ["uint", "int", "address", "bool", "ufixed", "fixed", "bytes", "function", "string"]

def findBasic (base : String) (size : TypeSize) : Except EncodingFault Unit :=
  if !writable.contains base then
    let name := String.ofList (quoted (base ++ size.text).toList)
    .error (.noCodec s!"No matching entries for {name} in encoder registry")
  else if base == "function" && size != .unsized then
    .error (.unsupportedType
      s!"Cannot create BytesEncoder for type '{base}{size.text}': expected type with base 'bytes'")
  else .ok ()

mutual

def find : AbiType → Except EncodingFault Unit
  | .basic base size => findBasic base size
  | .tuple ts => findAll ts
  | .array item _ => item.find

def findAll : List AbiType → Except EncodingFault Unit
  | [] => .ok ()
  | t :: ts => t.find.bind fun _ => findAll ts

end

/-- A basic type has to be writable as it is spelled; the others only with shorthands spelled
out. -/
def findSpelled : AbiType → Except EncodingFault Unit
  | .basic base size => findBasic base size
  | _ => .ok ()

/-- The type that a text spells, if arguments of it can be written. -/
def read (s : String) : Except EncodingFault AbiType :=
  match ofText? s with
  | none =>
    if s.contains "()" then
      .error (.unsupportedType "Zero-sized tuple types \"()\" are not supported.")
    else .error .unreadableType
  | some t =>
    t.findSpelled.bind fun _ =>
    t.normal.validate.bind fun _ =>
    t.normal.find.map fun _ => t.normal

end AbiType

end Solwright
