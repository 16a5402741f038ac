import Solwright.Proofs.Composition.Applied
import Solwright.Proofs.Text.Join

/-! What fills the slots of a base contract: the texts that the fragments bring for a slot, with a
separator between them. A property of texts that putting them together keeps is therefore one of every
filling, if the texts and the separators have it. -/

namespace Solwright

open Solwright.Text

/-- What is checked of all families holds of each. -/
theorem Family.of_all {p : Family → Bool} (h : Family.all.all p = true) (family : Family) :
    p family = true :=
  List.all_eq_true.1 h family (by cases family <;> decide)

/-- The texts that a fragment brings for a slot. -/
def Fragment.textsIn (p : Fragment) : Slot → List String
  | .contractName => []
  | .imports => p.imports.map importLine
  | .parents => p.parents
  | .state => p.state
  | .baseCalls => p.baseCalls
  | .statements => p.statements
  | .methods => p.methods.map Method.text

namespace Composition

/-- The texts that are put together for a slot. -/
def slotTexts (pieces : List Fragment) : Slot → List String
  | .imports => (firstSeen (pieces.flatMap (·.imports))).map importLine
  | .parents => firstSeen (pieces.flatMap (·.parents))
  | slot => pieces.flatMap (·.textsIn slot)

/-- What stands in front of the texts of a slot, if there are any. -/
def leading : Slot → String
  | .parents => ", "
  | .baseCalls => " "
  | _ => ""

/-- What stands between the texts of a slot. -/
def separator : Slot → String
  | .contractName => ""
  | .imports => "\n"
  | .parents => ", "
  | .state => "\n    "
  | .baseCalls => " "
  | .statements => "\n        "
  | .methods => "\n\n    "

variable {pieces : List Fragment} {slot : Slot}

theorem mem_slotTexts {s : String} : s ∈ slotTexts pieces slot ↔ ∃ p ∈ pieces, s ∈ p.textsIn slot := by
  have hmap : ∀ {α : Type} [BEq α] [LawfulBEq α] (field : Fragment → List α) (f : α → String),
      s ∈ (firstSeen (pieces.flatMap field)).map f ↔ ∃ p ∈ pieces, s ∈ (field p).map f := by
    intro α _ _ field f
    simp only [List.mem_map, mem_firstSeen, List.mem_flatMap]
    exact ⟨fun ⟨a, ⟨p, hp, ha⟩, hs⟩ => ⟨p, hp, a, ha, hs⟩, fun ⟨p, hp, a, ha, hs⟩ => ⟨a, ⟨p, hp, ha⟩, hs⟩⟩
  cases slot with
  | imports => exact hmap (·.imports) importLine
  | parents =>
    have hid := hmap (·.parents) id
    simp only [List.map_id] at hid
    exact hid
  | contractName | state | baseCalls | statements | methods => exact List.mem_flatMap

/-- What fills a slot other than the name's. -/
theorem filling_eq (r : Request) (h : slot ≠ .contractName) : filling r pieces slot =
    if (slotTexts pieces slot).isEmpty then ""
    else leading slot ++ joined (separator slot) (slotTexts pieces slot) := by
  have hplain : ∀ ss : List String, (if ss.isEmpty then "" else "" ++ joined (separator slot) ss) =
      joined (separator slot) ss := by
    intro ss
    cases ss with
    | nil => rfl
    | cons s ss => exact String.empty_append
  cases slot with
  | contractName => exact absurd rfl h
  | parents | baseCalls => rfl
  | imports | state | statements => exact (hplain _).symm
  | methods =>
    refine Eq.trans ?_ (hplain _).symm
    rw [filling, List.map_flatMap]
    rfl

/-- A property that putting texts together keeps holds of what fills a slot, if it holds of what is put
together there. -/
theorem filling_induction {P : List Char → Prop} (r : Request) (hnil : P [])
    (happend : ∀ {a b}, P a → P b → P (a ++ b)) (h : slot ≠ .contractName)
    (hleading : P (leading slot).toList) (hsep : P (separator slot).toList)
    (htexts : ∀ p ∈ pieces, ∀ s ∈ p.textsIn slot, P s.toList) : P (filling r pieces slot).toList := by
  rw [filling_eq r h]
  split
  · exact hnil
  · rw [String.toList_append]
    refine happend hleading (joined_induction hnil happend hsep fun s hs => ?_)
    obtain ⟨p, hp, hs⟩ := mem_slotTexts.1 hs
    exact htexts p hp s hs

/-- Every text that a fragment brings for a slot is in what fills it. -/
theorem infix_filling (r : Request) {p : Fragment} (hp : p ∈ pieces) {s : String} (hs : s ∈ p.textsIn slot) :
    s.toList <:+: (filling r pieces slot).toList := by
  have hslot : slot ≠ .contractName := by
    rintro rfl
    cases hs
  have hmem : s ∈ slotTexts pieces slot := mem_slotTexts.2 ⟨p, hp, hs⟩
  rw [filling_eq r hslot, if_neg, String.toList_append]
  · exact (infix_joined _ hmem).trans (List.suffix_append _ _).isInfix
  · rw [List.isEmpty_iff]
    exact List.ne_nil_of_mem hmem

end Composition

end Solwright
