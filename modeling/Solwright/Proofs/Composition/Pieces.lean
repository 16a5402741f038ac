import Solwright.Proofs.Composition.Filling
import Solwright.Proofs.Composition.Nesting

/-! What fills the slots of a base contract is neat, whichever features are asked for in whichever
order: the fragments are, and putting neat texts together keeps them so. -/

namespace Solwright

open Solwright.Text Solwright.Composition

theorem ContractName.alphanum (n : ContractName) : ∀ c ∈ n.text.toList, c.isAlphanum = true := by
  have h := n.wellFormed
  rcases hl : n.text.toList with _ | ⟨d, s⟩
  · simp
  · rw [hl, isContractName, Bool.and_eq_true, List.all_eq_true] at h
    intro c hc
    rcases List.mem_cons.1 hc with rfl | hc
    · simp [Char.isAlphanum, isAlpha_iff.2 (.inl h.1)]
    · exact h.2 c hc

theorem ContractName.head_isUpper (n : ContractName) : n.text.toList.head?.any Char.isUpper = true := by
  have h := n.wellFormed
  rcases hl : n.text.toList with _ | ⟨c, s⟩
  · rw [hl] at h
    cases h
  · rw [hl, isContractName, Bool.and_eq_true] at h
    exact h.1

/-- Every text that a fragment brings is neat. -/
theorem Fragment.isNeat_of_mem (family : Family) (feature : Feature) {slot : Slot} {s : String}
    (hs : s ∈ (Fragment.of (some family) feature).textsIn slot) : isNeat s.toList = true := by
  have hall : Family.all.all fun family => Feature.all.all fun feature => Slot.all.all fun slot =>
      ((Fragment.of (some family) feature).textsIn slot).all (passes isNeat) := by decide +kernel
  have hslot := Slot.of_all (Feature.of_all (Family.of_all hall family) feature) slot
  exact of_passes (List.all_eq_true.1 hslot s hs)

namespace Composition

/-- What stands before and between the texts of a slot is neat. -/
theorem isNeat_around (slot : Slot) :
    isNeat (leading slot).toList = true ∧ isNeat (separator slot).toList = true := by
  have hall : Slot.all.all fun slot => passes isNeat (leading slot) && passes isNeat (separator slot) := by
    decide
  have hslot := Slot.of_all hall slot
  rw [Bool.and_eq_true] at hslot
  exact ⟨of_passes hslot.1, of_passes hslot.2⟩

/-- What fills the slots for a request. -/
def fillingOf (r : Request) : Slot → String :=
  filling r (r.applied.map (Fragment.of (some r.family)))

theorem isNeat_fillingOf (r : Request) (slot : Slot) : isNeat (fillingOf r slot).toList = true := by
  by_cases hslot : slot = .contractName
  · rw [hslot]
    exact isNeat_of_alphanum r.contractName.alphanum
  · obtain ⟨hleading, hsep⟩ := isNeat_around slot
    refine filling_induction (P := (isNeat · = true)) r rfl isNeat_append hslot hleading hsep
      fun p hp s hs => ?_
    obtain ⟨feature, -, rfl⟩ := List.mem_map.1 hp
    exact Fragment.isNeat_of_mem r.family feature hs

/-- The fixed text of parts, as far as it is ASCII. -/
def fixedChars : List (String ⊕ Slot) → List Char
  | [] => []
  | .inl s :: parts => asciiChars (bytes s) ++ fixedChars parts
  | .inr _ :: parts => fixedChars parts

theorem expand_nil_eq {parts : List (String ⊕ Slot)} {p : List Char → Bool}
    (h : ∀ s, .inl s ∈ parts → passes p s = true) : expand (fun _ => []) parts = fixedChars parts := by
  induction parts with
  | nil => rfl
  | cons part parts ih =>
    have ih := ih fun s hs => h s (List.mem_cons_of_mem part hs)
    cases part with
    | inl s => rw [expand, fixedChars, ih, toList_of_passes (h s List.mem_cons_self)]
    | inr slot => exact ih

/-- Parts whose fixed text is plain, and nested where it is put together. -/
def isSound (parts : List (String ⊕ Slot)) : Bool :=
  parts.all (fun
    | .inl s => passes isPlain s
    | .inr _ => true) &&
  depth '{' '}' 0 (fixedChars parts) == some 0 && depth '(' ')' 0 (fixedChars parts) == some 0

theorem isSound_parts (family : Family) : isSound (Template.of family).parts = true := by
  have hall : Family.all.all fun family => isSound (Template.of family).parts := by decide +kernel
  exact Family.of_all hall family

theorem passes_parts (family : Family) {s : String} (hs : .inl s ∈ (Template.of family).parts) :
    passes isPlain s = true := by
  have hsound := isSound_parts family
  simp only [isSound, Bool.and_eq_true, List.all_eq_true] at hsound
  exact hsound.1.1 _ hs

theorem isPlain_parts (family : Family) (s : String) (hs : .inl s ∈ (Template.of family).parts) :
    isPlain s.toList = true :=
  of_passes (passes_parts family hs)

/-- The source that is composed for a request fills every slot of the base contract. -/
theorem source_toList (r : Request) :
    r.compose.source.toList = expand (fun slot => (fillingOf r slot).toList) (Template.of r.family).parts ∧
      depth '{' '}' 0 r.compose.source.toList = some 0 ∧
      depth '(' ')' 0 r.compose.source.toList = some 0 := by
  have hsound := isSound_parts r.family
  simp only [isSound, Bool.and_eq_true, beq_iff_eq] at hsound
  obtain ⟨⟨-, hbraces⟩, hparens⟩ := hsound
  have hneat := fun slot => isNeat_iff.1 (isNeat_fillingOf r slot)
  have hsource : r.compose.source.toList =
      expand (fun slot => (fillingOf r slot).toList) (Template.of r.family).parts := by
    rw [← fill_toList, ← replaced_eq_fill (isPlain_parts r.family) fun slot => (hneat slot).1]
    exact String.toList_ofList
  rw [hsource, depth_expand fun slot => (hneat slot).2.1, depth_expand fun slot => (hneat slot).2.2,
    expand_nil_eq fun s => passes_parts r.family]
  exact ⟨rfl, hbraces, hparens⟩

end Composition

end Solwright
