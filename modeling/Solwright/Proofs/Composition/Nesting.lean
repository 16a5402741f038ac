import Mathlib.Tactic.SplitIfs
import Solwright.Proofs.Composition.Markers

/-! The nesting of a composed contract. The text that a slot is filled with closes all that it opens
and nothing else, so the nesting is that of the text between the slots. -/

namespace Solwright.Composition

open Solwright.Text

/-- The depth after a character, unless it closes what is not open. -/
def depthAfter (opening closing : Char) (n : Nat) (c : Char) : Option Nat :=
  if c = opening then some (n + 1)
  else if c = closing then if n = 0 then none else some (n - 1)
  else some n

/-- The depth to which a text leads, unless it closes what is not open. -/
def depth (opening closing : Char) (n : Nat) (s : List Char) : Option Nat :=
  s.foldlM (depthAfter opening closing) n

variable {o e : Char}

theorem depth_cons (n : Nat) (c : Char) (s : List Char) :
    depth o e n (c :: s) = (depthAfter o e n c).bind fun m => depth o e m s := List.foldlM_cons

theorem depth_append (n : Nat) (a b : List Char) :
    depth o e n (a ++ b) = (depth o e n a).bind fun m => depth o e m b := List.foldlM_append

theorem depthAfter_add {n m : Nat} {c : Char} (h : depthAfter o e n c = some m) (k : Nat) :
    depthAfter o e (n + k) c = some (m + k) := by
  unfold depthAfter at h ⊢
  split_ifs at h ⊢ <;> simp only [Option.some.injEq] at h ⊢ <;> omega

/-- A text leads as far from a greater depth. -/
theorem depth_add {n m : Nat} {a : List Char} (h : depth o e n a = some m) (k : Nat) :
    depth o e (n + k) a = some (m + k) := by
  induction a generalizing n with
  | nil =>
    obtain rfl : n = m := by simpa [depth] using h
    rfl
  | cons c a ih =>
    rw [depth_cons] at h ⊢
    obtain ⟨i, hi, h⟩ := Option.bind_eq_some_iff.1 h
    rw [depthAfter_add hi]
    exact ih h

theorem count_of_depthAfter (hne : o ≠ e) {n m : Nat} {c : Char} (h : depthAfter o e n c = some m) :
    n + [c].count o = m + [c].count e := by
  unfold depthAfter at h
  split at h
  next hc =>
    subst hc
    obtain rfl := Option.some.inj h
    simp [hne]
  next hc =>
    split_ifs at h with he hn
    · subst he
      obtain rfl := Option.some.inj h
      simp only [List.count_singleton_self, List.count_singleton, beq_iff_eq, if_neg hne.symm]
      omega
    · obtain rfl := Option.some.inj h
      simp [hc, he]

/-- The totals of what is opened and closed. -/
theorem count_of_depth (hne : o ≠ e) {n m : Nat} {a : List Char} (h : depth o e n a = some m) :
    n + a.count o = m + a.count e := by
  induction a generalizing n with
  | nil =>
    obtain rfl : n = m := by simpa [depth] using h
    simp
  | cons c a ih =>
    rw [depth_cons] at h
    obtain ⟨i, hi, h⟩ := Option.bind_eq_some_iff.1 h
    have hc := count_of_depthAfter hne hi
    have hrest := ih h
    rw [← List.singleton_append, List.count_append, List.count_append]
    omega

/-- A text that may fill a slot: plain, and nested in itself. -/
def isNeat (s : List Char) : Bool :=
  isPlain s && depth '{' '}' 0 s == some 0 && depth '(' ')' 0 s == some 0

theorem isNeat_iff {s : List Char} : isNeat s = true ↔
    isPlain s = true ∧ depth '{' '}' 0 s = some 0 ∧ depth '(' ')' 0 s = some 0 := by
  simp only [isNeat, Bool.and_eq_true, beq_iff_eq, and_assoc]

theorem isNeat_append {a b : List Char} (ha : isNeat a = true) (hb : isNeat b = true) :
    isNeat (a ++ b) = true := by
  rw [isNeat_iff] at ha hb ⊢
  obtain ⟨hp, hc, hr⟩ := ha
  obtain ⟨hp', hc', hr'⟩ := hb
  refine ⟨isPlain_append hp hp', ?_, ?_⟩
  · rw [depth_append, hc]
    exact hc'
  · rw [depth_append, hr]
    exact hr'

/-- A text of letters and digits is neat. -/
theorem isNeat_of_alphanum {s : List Char} (h : ∀ c ∈ s, c.isAlphanum = true) : isNeat s = true := by
  induction s with
  | nil => rfl
  | cons c s ih =>
    have hc := h c List.mem_cons_self
    have hs := ih fun d hd => h d (List.mem_cons_of_mem c hd)
    refine isNeat_append (a := [c]) (isNeat_iff.2 ?_) hs
    have hne : ∀ d, d.isAlphanum = false → c ≠ d := by
      rintro d hd rfl
      rw [hc] at hd
      cases hd
    simp [isPlain, depth, depthAfter, hne]

/-- Neat texts in the slots of parts lead no deeper than none at all. -/
theorem depth_expand {g : Slot → List Char} (hg : ∀ slot, depth o e 0 (g slot) = some 0) (n : Nat)
    (parts : List (String ⊕ Slot)) :
    depth o e n (expand g parts) = depth o e n (expand (fun _ => []) parts) := by
  induction parts generalizing n with
  | nil => rfl
  | cons part parts ih =>
    cases part with
    | inl s =>
      rw [expand, depth_append, expand, depth_append]
      congr 1
      funext m
      exact ih m
    | inr slot =>
      have h := depth_add (hg slot) n
      rw [Nat.zero_add] at h
      rw [expand, depth_append, h]
      exact ih n

end Solwright.Composition
