import Solwright.Request
import Solwright.Template
import Solwright.Text.Scan

/-!
Composing the source of a contract: the fragments of the requested features that the family offers
are merged, and the markers of the base contract are replaced by what they give, one after another.
-/

namespace Solwright

open Solwright.Text

structure Conflict where
  first : Feature
  second : Feature
  method : String
  family : Family
  deriving DecidableEq

def Conflict.message (c : Conflict) : String :=
  s!"Features {c.first.name} and {c.second.name} both define {c.method}() for {c.family.name}"

/-- Values without those that came before, in first-seen order. -/
def firstSeen [BEq α] (xs : List α) : List α :=
  xs.foldl (fun seen x => if seen.contains x then seen else seen ++ [x]) []

structure Composition where
  request : Request
  source : String
  conflicts : List Conflict

def sourceName (contractName : RawText) : RawText :=
  contractName ++ ".sol"

/-- The features of a request that its family offers, each once, in first-seen order. -/
def Request.applied (r : Request) : List Feature :=
  firstSeen ((r.features.filterMap Feature.ofText?).filter (Template.of r.family).features.contains)

namespace Composition

/-- The functions met so far, each with the feature that defined it first, and the conflicts. -/
structure Ledger where
  definedBy : List (String × Feature)
  conflicts : List Conflict

def Ledger.note (family : Family) (feature : Feature) (l : Ledger) (method : String) : Ledger :=
  match l.definedBy.lookup method with
  | some first => { l with conflicts := l.conflicts ++ [⟨first, feature, method, family⟩] }
  | none => { l with definedBy := l.definedBy ++ [(method, feature)] }

def Ledger.add (family : Family) (l : Ledger) (feature : Feature) : Ledger :=
  (firstSeen ((Fragment.of (some family) feature).methods.map (·.name))).foldl
    (note family feature) l

def conflictsOf (family : Family) (features : List Feature) : List Conflict :=
  (features.foldl (Ledger.add family) ⟨[], []⟩).conflicts

def filling (r : Request) (pieces : List Fragment) : Slot → String
  | .contractName => r.contractName.text
  | .imports => joined "\n" (firstSeen (pieces.flatMap (·.imports)) |>.map importLine)
  | .parents =>
    let parents := firstSeen (pieces.flatMap (·.parents))
    if parents.isEmpty then "" else ", " ++ joined ", " parents
  | .state => joined "\n    " (pieces.flatMap (·.state))
  | .baseCalls =>
    let calls := pieces.flatMap (·.baseCalls)
    if calls.isEmpty then "" else " " ++ joined " " calls
  | .statements => joined "\n        " (pieces.flatMap (·.statements))
  | .methods => joined "\n\n    " (pieces.flatMap (·.methods) |>.map Method.text)

def replaceMarker (f : Slot → String) (s : List Char) (slot : Slot) : List Char :=
  replaceAll slot.marker.toList (f slot).toList s

end Composition

def Request.compose (r : Request) : Composition :=
  let pieces := r.applied.map (Fragment.of (some r.family))
  let filling := Composition.filling r pieces
  { request := r
    source := String.ofList <|
      Slot.all.foldl (Composition.replaceMarker filling) (Template.of r.family).text.toList
    conflicts := Composition.conflictsOf r.family r.applied }

end Solwright
