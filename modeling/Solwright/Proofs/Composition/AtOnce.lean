import Solwright.Proofs.Composition.Accepted

/-! The source of every request is nested and accepted and has no marker left in it, and the order in
which the slots are filled does not matter: reading the base contract once and filling every slot
where it stands gives the same text. -/

namespace Solwright

open Solwright.Text Solwright.Source

namespace Composition

/-- The slot whose marker begins a text. -/
def markerAt? (s : List Char) : Option Slot :=
  Slot.all.find? fun slot => slot.marker.toList.isPrefixOf s

/-- Replaces the markers of all slots in one reading. What is put in their places is not read. The
first argument counts the characters of a marker that are still to be dropped. -/
def replaceMarkersFrom (f : Slot → List Char) : Nat → List Char → List Char
  | _, [] => []
  | n + 1, _ :: s => replaceMarkersFrom f n s
  | 0, c :: s =>
    match markerAt? (c :: s) with
    | some slot => f slot ++ replaceMarkersFrom f (slot.marker.toList.length - 1) s
    | none => c :: replaceMarkersFrom f 0 s

/-- Replaces the markers of all slots at once. -/
def replaceMarkers (f : Slot → String) (s : List Char) : List Char :=
  replaceMarkersFrom (fun slot => (f slot).toList) 0 s

theorem markerAt?_plain {c : Char} {a rest : List Char} (h : isPlain (c :: a) = true) :
    markerAt? (c :: a ++ rest) = none := by
  rw [markerAt?, List.find?_eq_none]
  intro slot _
  obtain ⟨w, hw, -⟩ := isPlain_marker_tail slot
  rw [hw, not_isPrefixOf_plain h]
  exact Bool.false_ne_true

theorem markerAt?_marker (slot : Slot) (rest : List Char) :
    markerAt? (slot.marker.toList ++ rest) = some slot := by
  have hself : slot.marker.toList.isPrefixOf (slot.marker.toList ++ rest) = true :=
    List.isPrefixOf_iff_prefix.2 (List.prefix_append _ _)
  have hother : ∀ k, k.marker.toList.isPrefixOf (slot.marker.toList ++ rest) = true → k = slot := by
    intro k hk
    by_contra hne
    rw [not_isPrefixOf_of_differ (differ_markers hne)] at hk
    cases hk
  cases hf : markerAt? (slot.marker.toList ++ rest) with
  | some k =>
    have hk := List.find?_some hf
    rw [hother k hk]
  | none =>
    have hnone := List.find?_eq_none.1 hf slot slot.mem_all
    exact absurd hself hnone

variable {f : Slot → List Char}

theorem replaceMarkersFrom_drop {a rest : List Char} :
    replaceMarkersFrom f a.length (a ++ rest) = replaceMarkersFrom f 0 rest := by
  induction a with
  | nil => rfl
  | cons c a ih => simpa [replaceMarkersFrom] using ih

theorem replaceMarkersFrom_plain {a rest : List Char} (h : isPlain a = true) :
    replaceMarkersFrom f 0 (a ++ rest) = a ++ replaceMarkersFrom f 0 rest := by
  induction a with
  | nil => rfl
  | cons c a ih =>
    have hnone : markerAt? (c :: a ++ rest) = none := markerAt?_plain h
    rw [List.cons_append] at hnone ⊢
    rw [replaceMarkersFrom, hnone, ih (isPlain_tail h), List.cons_append]

theorem replaceMarkersFrom_marker (slot : Slot) (rest : List Char) :
    replaceMarkersFrom f 0 (slot.marker.toList ++ rest) = f slot ++ replaceMarkersFrom f 0 rest := by
  have hat := markerAt?_marker slot rest
  obtain ⟨w, hw, -⟩ := isPlain_marker_tail slot
  rw [hw, List.cons_append] at hat ⊢
  rw [replaceMarkersFrom, hat]
  simp only [hw]
  exact congrArg _ replaceMarkersFrom_drop

/-- Replacing the markers of all slots at once fills every slot where it stands. -/
theorem replaceMarkers_fill {f : Slot → String} {parts : List (String ⊕ Slot)}
    (hparts : ∀ s, .inl s ∈ parts → isPlain s.toList = true) :
    replaceMarkers f (Template.fill parts Slot.marker).toList = (Template.fill parts f).toList := by
  rw [fill_toList, fill_toList, replaceMarkers]
  induction parts with
  | nil => rfl
  | cons part parts ih =>
    have ih := ih fun s hs => hparts s (List.mem_cons_of_mem part hs)
    cases part with
    | inl s =>
      rw [expand, replaceMarkersFrom_plain (hparts s List.mem_cons_self), ih]
      rfl
    | inr slot =>
      rw [expand, replaceMarkersFrom_marker, ih]
      rfl

theorem isPlain_of_suffix {s t : List Char} (h : t <:+ s) (hs : isPlain s = true) : isPlain t = true := by
  obtain ⟨a, rfl⟩ := h
  induction a with
  | nil => exact hs
  | cons c a ih => exact ih (isPlain_tail hs)

/-- No marker stands in a plain text. -/
theorem not_marker_isInfix {s : List Char} (h : isPlain s = true) (slot : Slot) :
    ¬slot.marker.toList <:+: s := by
  rintro ⟨a, b, rfl⟩
  obtain ⟨w, hw, -⟩ := isPlain_marker_tail slot
  have hplain : isPlain (slot.marker.toList ++ b) = true :=
    isPlain_of_suffix ⟨a, (List.append_assoc _ _ _).symm⟩ h
  rw [hw] at hplain
  simp [isPlain] at hplain

/-- No prefix of a nested text closes more than it opens. -/
theorem count_prefix_of_depth {o e : Char} (hne : o ≠ e) {s p : List Char} {n : Nat}
    (h : depth o e 0 s = some n) (hp : p <+: s) : p.count e ≤ p.count o := by
  obtain ⟨rest, rfl⟩ := hp
  rw [depth_append] at h
  obtain ⟨m, hm, -⟩ := Option.bind_eq_some_iff.1 h
  have hcount := count_of_depth hne hm
  omega

end Composition

open Solwright.Composition

/-- The source of every request has no marker in it, is nested, and passes the structural check; the
first contract that it declares is the one that was asked for; and filling the slots one after
another, as it is composed, comes to filling them at once. -/
theorem compose_sound (r : Request) :
    let source := r.compose.source
    let base := (Template.of r.family).text.toList
    (∀ slot : Slot, ¬slot.marker.toList <:+: source.toList) ∧
    (∀ p, p <+: source.toList → p.count '}' ≤ p.count '{' ∧ p.count ')' ≤ p.count '(') ∧
    source.toList.count '{' = source.toList.count '}' ∧
    source.toList.count '(' = source.toList.count ')' ∧
    problems source = [] ∧ firstDeclared? source = some r.contractName.text ∧
    source.toList = Slot.all.foldl (replaceMarker (fillingOf r)) base ∧
    source.toList = replaceMarkers (fillingOf r) base := by
  intro source base
  obtain ⟨hexpand, hbraces, hparens⟩ := source_toList r
  have hparts := isPlain_parts r.family
  have hfilling : ∀ slot, isPlain (fillingOf r slot).toList = true := fun slot =>
    (isNeat_iff.1 (isNeat_fillingOf r slot)).1
  have hplain : isPlain source.toList = true := by
    rw [hexpand]
    exact expand_induction (P := (isPlain · = true)) rfl isPlain_append hparts fun slot _ => hfilling slot
  have hcounts := count_of_depth (by decide) hbraces
  have hcounts' := count_of_depth (by decide) hparens
  simp only [Nat.zero_add] at hcounts hcounts'
  refine ⟨not_marker_isInfix hplain, fun p hp => ?_, hcounts, hcounts', ?_, r.firstDeclared_compose,
    String.toList_ofList, ?_⟩
  · exact ⟨count_prefix_of_depth (by decide) hbraces hp, count_prefix_of_depth (by decide) hparens hp⟩
  · rw [problems, r.flaws_compose]
    rfl
  · rw [hexpand, ← fill_toList]
    exact (replaceMarkers_fill hparts).symm

end Solwright
