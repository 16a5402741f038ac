import Solwright.Text.Raw

/-!
JSON texts as bytes. The bytes do not say how the text is encoded, but a text begins with
characters of ASCII, so the zeros among its first bytes tell of wider units and of their order.
-/

namespace Solwright.Json

open Solwright.Text

inductive Encoding
  | bytes
  | pairs (lowFirst : Bool)
  | quads (lowFirst : Bool)
  deriving DecidableEq

/-- The encoding that the zeros among the first bytes tell of. -/
def Encoding.ofBytes : List UInt8 → Encoding
  | a :: b :: c :: d :: _ =>
    if a == 0 then if b == 0 then .quads false else .pairs false
    else if b == 0 then if c == 0 && d == 0 then .quads true else .pairs true
    else .bytes
  | [a, b] => if a == 0 then .pairs false else if b == 0 then .pairs true else .bytes
  | _ => .bytes

def pairValue (lowFirst : Bool) (a b : UInt8) : Nat :=
  if lowFirst then a.toNat + 256 * b.toNat else 256 * a.toNat + b.toNat

/-- The code points of pairs of bytes, added to those read so far, the last one first. No byte may be
left over. -/
def codesOfPairs (lowFirst : Bool) (read : List Nat) : List UInt8 → Option (List Nat)
  | [] => some read.reverse
  | [_] => none
  | a :: b :: rest => codesOfPairs lowFirst (pushUnit (pairValue lowFirst a b) read) rest

def quadValue (lowFirst : Bool) (a b c d : UInt8) : Nat :=
  if lowFirst then pairValue true a b + 0x10000 * pairValue true c d
  else 0x10000 * pairValue false a b + pairValue false c d

def codesOfQuads (lowFirst : Bool) : List UInt8 → Option (List Nat)
  | [] => some []
  | a :: b :: c :: d :: rest =>
    let n := quadValue lowFirst a b c d
    if n < 0x110000 then (codesOfQuads lowFirst rest).map (n :: ·) else none
  | _ => none

/-- The text that a text stands for which was sent as bytes. One in wider units is made of the
bytes. -/
def decoded? (s : String) : Option RawText :=
  let bytes := s.toUTF8.data.toList
  match Encoding.ofBytes bytes with
  | .bytes => some s
  | .pairs lowFirst => (codesOfPairs lowFirst [] bytes).map .ofCodes
  | .quads lowFirst => (codesOfQuads lowFirst bytes).map .ofCodes

end Solwright.Json
