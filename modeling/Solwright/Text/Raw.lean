import Solwright.Text.Unit

/-!
Texts that need not be Unicode. Half a surrogate pair may stand alone in a text; such a text is no
list of characters and is kept by its code points.
-/

namespace Solwright

open Solwright.Text

/-- A text, kept by its code points where half a pair stands alone in it. -/
inductive RawText
  | formed (s : String)
  | illFormed (codes : List Nat)
  deriving DecidableEq

namespace RawText

instance : Coe String RawText := ⟨formed⟩

instance : Inhabited RawText := ⟨formed ""⟩

def ofCodes (ns : List Nat) : RawText :=
  if ns.any isHalf then .illFormed ns else .formed (String.ofList (shownCodes ns))

def codes : RawText → List Nat
  | .formed s => s.toList.map Char.toNat
  | .illFormed ns => ns

def isFormed : RawText → Bool
  | .formed _ => true
  | .illFormed _ => false

def isEmpty : RawText → Bool
  | .formed s => s.isEmpty
  | .illFormed _ => false

def shown : RawText → String
  | .formed s => s
  | .illFormed ns => String.ofList (shownCodes ns)

/-- Two texts one after the other. Halves that come to stand side by side do not make a pair. -/
def append : RawText → RawText → RawText
  | .formed s, .formed t => .formed (s ++ t)
  | s, t => .illFormed (s.codes ++ t.codes)

instance : Append RawText := ⟨append⟩

def joined (separator : RawText) : List RawText → RawText
  | [] => ""
  | [s] => s
  | s :: ss => s ++ separator ++ joined separator ss

end RawText

end Solwright
