import Mathlib.Data.List.Induction
import Mathlib.Data.List.Nodup
import Solwright.Composition
import Solwright.Proofs.Feature.Spelling

/-! The features that a request applies: those that its family offers and one of its texts spells, each
once, in the order in which the texts come to them. -/

namespace Solwright

section FirstSeen

variable {α : Type} [BEq α]

/-- Adds a value that was not seen before. -/
def addNew (seen : List α) (x : α) : List α :=
  if seen.contains x then seen else seen ++ [x]

theorem firstSeen_concat (xs : List α) (x : α) : firstSeen (xs ++ [x]) = addNew (firstSeen xs) x := by
  rw [firstSeen, List.foldl_append]
  rfl

variable [LawfulBEq α]

theorem addNew_of_mem {seen : List α} {x : α} (h : x ∈ seen) : addNew seen x = seen :=
  if_pos (List.contains_iff_mem.2 h)

theorem addNew_of_notMem {seen : List α} {x : α} (h : x ∉ seen) : addNew seen x = seen ++ [x] :=
  if_neg (mt List.contains_iff_mem.1 h)

theorem mem_addNew {seen : List α} {x y : α} : y ∈ addNew seen x ↔ y ∈ seen ∨ y = x := by
  by_cases h : x ∈ seen
  · rw [addNew_of_mem h, iff_self_or]
    rintro rfl
    exact h
  · rw [addNew_of_notMem h, List.mem_append, List.mem_singleton]

theorem mem_firstSeen {xs : List α} {x : α} : x ∈ firstSeen xs ↔ x ∈ xs := by
  induction xs using List.reverseRecOn with
  | nil => exact Iff.rfl
  | append_singleton xs y ih =>
    rw [firstSeen_concat, mem_addNew, ih, List.mem_append, List.mem_singleton]

theorem nodup_firstSeen (xs : List α) : (firstSeen xs).Nodup := by
  induction xs using List.reverseRecOn with
  | nil => exact .nil
  | append_singleton xs y ih =>
    rw [firstSeen_concat]
    by_cases h : y ∈ firstSeen xs
    · rwa [addNew_of_mem h]
    · rw [addNew_of_notMem h, ← List.concat_eq_append]
      exact List.Nodup.concat h ih

/-- Where no value comes twice, every one is new. -/
theorem firstSeen_of_nodup {xs : List α} (h : xs.Nodup) : firstSeen xs = xs := by
  induction xs using List.reverseRecOn with
  | nil => rfl
  | append_singleton xs y ih =>
    obtain ⟨hxs, -, hne⟩ := List.nodup_append.1 h
    have hy : y ∉ xs := fun hy => hne y hy y List.mem_cons_self rfl
    rw [firstSeen_concat, ih hxs, addNew_of_notMem hy]

end FirstSeen

/-- Some beginning of a list of texts spells one feature and not the other. -/
def Feature.SeenBefore (texts : List RawText) (f g : Feature) : Prop :=
  ∃ a, a <+: texts ∧ (∃ s ∈ a, f.IsSpelled s) ∧ ∀ s ∈ a, ¬g.IsSpelled s

theorem Feature.SeenBefore.ne {texts : List RawText} {f g : Feature} (h : SeenBefore texts f g) : f ≠ g := by
  rintro rfl
  obtain ⟨a, -, ⟨s, hs, hf⟩, hg⟩ := h
  exact hg s hs hf

namespace Composition

/-- What is applied after one more text was met. -/
def meet (family : Family) (applied : List Feature) (s : RawText) : List Feature :=
  match Feature.ofText? s with
  | none => applied
  | some f => if (Template.of family).features.contains f then addNew applied f else applied

variable {family : Family} {applied : List Feature} {s : RawText} {f : Feature}

theorem meet_of_none (h : Feature.ofText? s = none) : meet family applied s = applied := by
  rw [meet, h]

theorem meet_of_offered (h : Feature.ofText? s = some f) (hf : f ∈ (Template.of family).features) :
    meet family applied s = addNew applied f := by
  rw [meet, h]
  exact if_pos (List.contains_iff_mem.2 hf)

theorem meet_of_not_offered (h : Feature.ofText? s = some f) (hf : f ∉ (Template.of family).features) :
    meet family applied s = applied := by
  rw [meet, h]
  exact if_neg (mt List.contains_iff_mem.1 hf)

/-- All that meeting a text can do. -/
theorem meet_cases (family : Family) (applied : List Feature) (s : RawText) :
    (meet family applied s = applied ∧ ∀ f ∈ (Template.of family).features, ¬f.IsSpelled s) ∨
      ∃ f ∈ (Template.of family).features, f.IsSpelled s ∧
        (∀ g : Feature, g.IsSpelled s → g = f) ∧ meet family applied s = addNew applied f := by
  have honly : ∀ {f g : Feature}, Feature.ofText? s = some f → g.IsSpelled s → g = f := by
    intro f g hs hg
    rw [Feature.ofText?_eq_some_iff.2 hg] at hs
    exact Option.some.inj hs
  rcases hs : Feature.ofText? s with _ | f
  · refine .inl ⟨meet_of_none hs, fun f _ hf => ?_⟩
    rw [Feature.ofText?_eq_some_iff.2 hf] at hs
    cases hs
  by_cases hf : f ∈ (Template.of family).features
  · exact .inr ⟨f, hf, Feature.ofText?_eq_some_iff.1 hs, fun g hg => honly hs hg, meet_of_offered hs hf⟩
  · refine .inl ⟨meet_of_not_offered hs hf, fun g hg hspelled => hf ?_⟩
    rwa [← honly hs hspelled]

/-- The texts of a request are met one after another. -/
theorem applied_eq_foldl (r : Request) : r.applied = r.features.foldl (meet r.family) [] := by
  rw [Request.applied]
  induction r.features using List.reverseRecOn with
  | nil => rfl
  | append_singleton texts s ih =>
    rw [List.foldl_append, ← ih, List.foldl_cons, List.foldl_nil, List.filterMap_append, List.filter_append]
    rcases hs : Feature.ofText? s with _ | f
    · rw [meet_of_none hs]
      simp [hs]
    by_cases hf : f ∈ (Template.of r.family).features
    · rw [meet_of_offered hs hf, ← firstSeen_concat]
      simp [hs, hf]
    · rw [meet_of_not_offered hs hf]
      simp [hs, hf]

theorem mem_foldl_meet {texts : List RawText} : f ∈ texts.foldl (meet family) [] ↔
    f ∈ (Template.of family).features ∧ ∃ s ∈ texts, f.IsSpelled s := by
  induction texts using List.reverseRecOn with
  | nil => simp
  | append_singleton texts s ih =>
    rw [List.foldl_append, List.foldl_cons, List.foldl_nil]
    have hsplit : (∃ t ∈ texts ++ [s], f.IsSpelled t) ↔ (∃ t ∈ texts, f.IsSpelled t) ∨ f.IsSpelled s := by
      simp [or_and_right, exists_or]
    rw [hsplit, and_or_left]
    rcases meet_cases family (texts.foldl (meet family) []) s with ⟨hmeet, hnone⟩ | ⟨g, hg, hs, honly, hmeet⟩
    · rw [hmeet, ih, iff_self_or]
      rintro ⟨hf, hs⟩
      exact absurd hs (hnone f hf)
    · rw [hmeet, mem_addNew, ih]
      refine or_congr_right ⟨?_, fun h => honly f h.2⟩
      rintro rfl
      exact ⟨hg, hs⟩

theorem pairwise_foldl_meet (family : Family) (texts : List RawText) :
    (texts.foldl (meet family) []).Pairwise (Feature.SeenBefore texts) := by
  induction texts using List.reverseRecOn with
  | nil => exact .nil
  | append_singleton texts s ih =>
    have hold : (texts.foldl (meet family) []).Pairwise (Feature.SeenBefore (texts ++ [s])) := by
      refine ih.imp fun h => ?_
      obtain ⟨a, ha, h⟩ := h
      exact ⟨a, ha.trans (List.prefix_append _ _), h⟩
    rw [List.foldl_append, List.foldl_cons, List.foldl_nil]
    rcases meet_cases family (texts.foldl (meet family) []) s with ⟨hmeet, -⟩ | ⟨g, hg, -, -, hmeet⟩
    · rwa [hmeet]
    rw [hmeet]
    by_cases hseen : g ∈ texts.foldl (meet family) []
    · rwa [addNew_of_mem hseen]
    rw [addNew_of_notMem hseen, List.pairwise_append]
    refine ⟨hold, List.pairwise_singleton _ _, fun f hf g' hg' => ?_⟩
    obtain rfl := List.mem_singleton.1 hg'
    -- all of the old texts spell what was applied before and not the new feature
    refine ⟨texts, List.prefix_append _ _, (mem_foldl_meet.1 hf).2, fun t ht hspelled => ?_⟩
    exact hseen (mem_foldl_meet.2 ⟨hg, t, ht, hspelled⟩)

end Composition

open Solwright.Composition

/-- The features that are applied are the offered ones that are spelled. -/
theorem Request.mem_applied {r : Request} {f : Feature} : f ∈ r.applied ↔
    f ∈ (Template.of r.family).features ∧ ∃ s ∈ r.features, f.IsSpelled s := by
  rw [applied_eq_foldl, mem_foldl_meet]

/-- The features that are applied come in the order in which they are seen first. -/
theorem Request.pairwise_applied (r : Request) : r.applied.Pairwise (Feature.SeenBefore r.features) := by
  rw [applied_eq_foldl]
  exact pairwise_foldl_meet r.family r.features

theorem Request.nodup_applied (r : Request) : r.applied.Nodup :=
  r.pairwise_applied.imp fun h => h.ne

end Solwright
