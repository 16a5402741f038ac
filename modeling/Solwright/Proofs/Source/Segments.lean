import Solwright.Proofs.Library.Confinement
import Solwright.Source.Path

/-! The segments that are kept while a path is read: names, above the steps up that nothing could take
back. -/

namespace Solwright.Source

open Solwright.Text
open Catalog (IsName way)

/-- Segments as they are kept while a path is read: names, and the steps up that nothing could take back. At
the root there is nothing to step up to. -/
def IsKept (rooted : Bool) (kept : List (List Char)) : Prop :=
  ∃ names ups, kept = names ++ List.replicate ups ['.', '.'] ∧ (rooted = true → ups = 0) ∧
    ∀ s ∈ names, IsName s ∧ '/' ∉ s

variable {rooted : Bool} {kept : List (List Char)}

theorem enter_of_isName {s : List Char} (h : IsName s) : enter rooted kept s = s :: kept := by
  unfold enter
  rw [if_neg (by simp [h.1, h.2.1]), if_neg (by simp [h.2.2])]

theorem isKept_enter (h : IsKept rooted kept) {s : List Char} (hs : '/' ∉ s) :
    IsKept rooted (enter rooted kept s) := by
  have hkept := h
  obtain ⟨names, ups, rfl, hups, hnames⟩ := h
  unfold enter
  split
  · exact hkept
  next hskip =>
    split
    next hup =>
      rw [beq_iff_eq] at hup
      subst hup
      cases names with
      | nil =>
        -- no name is left to take back
        cases ups with
        | zero =>
          cases rooted with
          | true => exact ⟨[], 0, rfl, fun _ => rfl, nofun⟩
          | false => exact ⟨[], 1, rfl, nofun, nofun⟩
        | succ ups => exact ⟨[], ups + 2, rfl, fun h => absurd (hups h) (Nat.succ_ne_zero ups), nofun⟩
      | cons name names =>
        rw [List.forall_mem_cons] at hnames
        refine ⟨names, ups, ?_, hups, hnames.2⟩
        have hname : (name == ['.', '.']) = false := beq_eq_false_iff_ne.2 hnames.1.1.2.2
        simp [hname]
    next hup =>
      simp only [Bool.or_eq_true, List.isEmpty_iff, beq_iff_eq, not_or] at hskip hup
      exact ⟨s :: names, ups, rfl, hups, List.forall_mem_cons.2 ⟨⟨⟨hskip.1, hskip.2, hup⟩, hs⟩, hnames⟩⟩

theorem isKept_foldl {segments : List (List Char)} (h : IsKept rooted kept) (hs : ∀ s ∈ segments, '/' ∉ s) :
    IsKept rooted (segments.foldl (enter rooted) kept) := by
  induction segments generalizing kept with
  | nil => exact h
  | cons s segments ih =>
    rw [List.forall_mem_cons] at hs
    exact ih (isKept_enter h hs.1) hs.2

/-- The segments of a path: steps up, and then names. -/
theorem normalSegments_eq (rooted : Bool) (path : List Char) : ∃ ups names,
    normalSegments rooted path = List.replicate ups ['.', '.'] ++ names ∧ (rooted = true → ups = 0) ∧
      ∀ s ∈ names, IsName s ∧ '/' ∉ s := by
  obtain ⟨names, ups, hkept, hups, hnames⟩ : IsKept rooted ((splitAt '/' path).foldl (enter rooted) []) :=
    isKept_foldl ⟨[], 0, rfl, fun _ => rfl, nofun⟩ fun s hs => notMem_of_mem_splitAt hs
  refine ⟨ups, names.reverse, ?_, hups, fun s hs => hnames s (List.mem_reverse.1 hs)⟩
  rw [normalSegments, hkept, List.reverse_append, List.reverse_replicate]

theorem foldl_enter_names {segments : List (List Char)} (h : ∀ s ∈ segments, IsName s) :
    segments.foldl (enter rooted) kept = segments.reverse ++ kept := by
  induction segments generalizing kept with
  | nil => rfl
  | cons s segments ih =>
    rw [List.forall_mem_cons] at h
    rw [List.foldl_cons, enter_of_isName h.1, ih h.2, List.reverse_cons, List.append_assoc]
    rfl

theorem foldl_enter_ups {ups : Nat} (h : rooted = true → ups = 0) :
    (List.replicate ups ['.', '.']).foldl (enter rooted) [] = List.replicate ups ['.', '.'] := by
  cases rooted with
  | true =>
    rw [h rfl]
    rfl
  | false =>
    induction ups with
    | zero => rfl
    | succ ups ih =>
      rw [List.replicate_succ', List.foldl_append, ih nofun, ← List.replicate_succ']
      cases ups <;> rfl

/-- What is kept stays as it is when it is read again. -/
theorem IsKept.foldl_reverse (h : IsKept rooted kept) : kept.reverse.foldl (enter rooted) [] = kept := by
  obtain ⟨names, ups, rfl, hups, hnames⟩ := h
  rw [List.reverse_append, List.reverse_replicate, List.foldl_append, foldl_enter_ups hups,
    foldl_enter_names fun s hs => (hnames s (List.mem_reverse.1 hs)).1, List.reverse_reverse]

/-- A kept segment is a piece of a path, and there is something in it. -/
theorem IsKept.of_mem (h : IsKept rooted kept) {s : List Char} (hs : s ∈ kept) : s ≠ [] ∧ '/' ∉ s := by
  obtain ⟨names, ups, rfl, -, hnames⟩ := h
  rcases List.mem_append.1 hs with hs | hs
  · exact ⟨(hnames s hs).1.1, (hnames s hs).2⟩
  · rw [List.eq_of_mem_replicate hs]
    decide

theorem joinWith_way (s : List Char) (segments : List (List Char)) :
    joinWith ['/'] (s :: segments) = s ++ way segments :=
  joinWith_cons s segments

end Solwright.Source
