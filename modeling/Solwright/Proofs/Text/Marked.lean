import Solwright.Proofs.Text.Raw
import Solwright.Text.Marked

/-! Code points that were made characters. A slash keeps what stands before it apart from what follows, and so
does a character that is no mark. -/

namespace Solwright.Text

theorem unmarked_cons {c : Char} (h : c ≠ mark) (s : List Char) : unmarked (c :: s) = c.toNat :: unmarked s := by
  cases s with
  | nil => rfl
  | cons d s => rw [unmarked, if_neg (by simp [h])]

theorem unmarked_append_slash (a b : List Char) :
    unmarked (a ++ '/' :: b) = unmarked a ++ '/'.toNat :: unmarked b := by
  fun_induction unmarked a with
  | case1 c d s hpair ih => rw [List.cons_append, List.cons_append, unmarked, if_pos hpair, ih, List.cons_append]
  | case2 c d s hpair ih =>
    rw [List.cons_append, List.cons_append, unmarked, if_neg hpair, List.cons_append]
    exact congrArg _ ih
  | case3 c =>
    rw [List.singleton_append, unmarked, if_neg (by simp), unmarked_cons (by decide)]
    rfl
  | case4 => exact unmarked_cons (by decide) b

/-- Code points in ASCII were made themselves. -/
theorem shownCodes_unmarked {s : List Char} (h : ∀ n ∈ unmarked s, n < 0x80) : shownCodes (unmarked s) = s := by
  fun_induction unmarked s with
  | case1 c d s hpair ih =>
    have hlow := h _ List.mem_cons_self
    have hmark : ¬mark.toNat < 0x80 := by decide
    split at hlow <;> omega
  | case2 c d s hpair ih =>
    rw [List.forall_mem_cons] at h
    rw [shownCodes, List.map_cons, shownCode_toNat]
    exact congrArg _ (ih h.2)
  | case3 c => exact congrArg (· :: []) (shownCode_toNat c)
  | case4 => rfl

theorem shownCode_eq_iff {n : Nat} {c : Char} (hc : 0 < c.toNat ∧ c.toNat < 0x80) : shownCode n = c ↔ n = c.toNat := by
  constructor
  · rintro rfl
    unfold shownCode at hc ⊢
    split at hc
    · exact absurd hc.2 (by decide)
    next hhalf =>
      rw [if_neg hhalf]
      by_cases hn : n < 0x110000
      · exact (toNat_ofNat_of_not_isHalf hn (by simpa using hhalf)).symm
      · have hzero : Char.ofNat n = Char.ofNat 0 := by
          rw [Char.ofNat, dif_neg]
          · rfl
          · simp only [Nat.isValidChar]
            omega
        rw [hzero] at hc
        exact absurd hc.1 (by decide)
  · rintro rfl
    exact shownCode_toNat c

theorem ne_mark {c : Char} (hc : c.toNat < 0x80) : c ≠ mark := by
  rintro rfl
  exact absurd hc (by decide)

theorem unmarked_append {a : List Char} (ha : ∀ c ∈ a, c.toNat < 0x80) (b : List Char) :
    unmarked (a ++ b) = a.map Char.toNat ++ unmarked b := by
  induction a with
  | nil => rfl
  | cons c a ih =>
    rw [List.forall_mem_cons] at ha
    rw [List.cons_append, unmarked_cons (ne_mark ha.1), ih ha.2]
    rfl

/-- Made characters, code points begin as they do when they are shown. -/
theorem head?_marked (ns : List Nat) : (marked ns).head? = (shownCodes ns).head? := by
  cases ns with
  | nil => rfl
  | cons n ns =>
    rw [marked, List.flatMap_cons, markedCode, shownCodes, List.map_cons, shownCode]
    split
    · rfl
    split
    next hn =>
      rw [hn]
      rfl
    next => rfl

/-- What code points begin with when they are shown, they begin with when they are made characters. -/
theorem marked_of_shownCodes {ns : List Nat} {a s : List Char} (ha : ∀ c ∈ a, 0 < c.toNat ∧ c.toNat < 0x80)
    (h : shownCodes ns = a ++ s) : ∃ ns', marked ns = a ++ marked ns' ∧ shownCodes ns' = s := by
  induction a generalizing ns with
  | nil => exact ⟨ns, rfl, h⟩
  | cons c a ih =>
    rw [List.forall_mem_cons] at ha
    obtain ⟨n, ns, rfl, hn, hns⟩ := List.map_eq_cons_iff.1 h
    rw [shownCode_eq_iff ha.1] at hn
    obtain ⟨ns', hmarked, hs⟩ := ih ha.2 hns
    refine ⟨ns', ?_, hs⟩
    rw [marked, List.flatMap_cons, markedCode, hn, isHalf_toNat, if_neg Bool.false_ne_true,
      if_neg fun hmark => ne_mark ha.1.2 (Char.toNat_inj.1 hmark), Char.ofNat_toNat]
    exact congrArg (c :: ·) hmarked

/-- The characters of code points that were made characters. -/
def shownMarked (s : List Char) : List Char :=
  shownCodes (unmarked s)

theorem shownMarked_append_slash (a b : List Char) :
    shownMarked (a ++ '/' :: b) = shownMarked a ++ '/' :: shownMarked b := by
  rw [shownMarked, unmarked_append_slash, shownCodes, List.map_append, List.map_cons, shownCode_toNat]
  rfl

theorem shownMarked_append {a : List Char} (ha : ∀ c ∈ a, c.toNat < 0x80) (b : List Char) :
    shownMarked (a ++ b) = a ++ shownMarked b := by
  rw [shownMarked, unmarked_append ha, shownCodes, List.map_append, List.map_map]
  refine congrArg (· ++ shownMarked b) ((List.map_congr_left fun c _ => ?_).trans (List.map_id a))
  exact shownCode_toNat c

section Counts

variable {p : Char → Bool} (hp : ∀ c, p c = true → 0 < c.toNat ∧ c.toNat < 0x80)

include hp

/-- Of characters in ASCII, making code points characters adds none. -/
theorem countP_marked_le (ns : List Nat) : (marked ns).countP p ≤ (shownCodes ns).countP p := by
  induction ns with
  | nil => exact Nat.le_refl 0
  | cons n ns ih =>
    rw [marked, List.flatMap_cons, List.countP_append, shownCodes, List.map_cons, List.countP_cons]
    have hmark : p mark = false := by
      rw [Bool.eq_false_iff]
      exact fun h => absurd (hp mark h).2 (by decide)
    have hhead : (markedCode n).countP p ≤ if p (shownCode n) = true then 1 else 0 := by
      rw [markedCode, shownCode]
      split
      next hhalf =>
        have hcode : ¬p (Char.ofNat (0xE000 + (n - 0xD800))) = true := by
          intro h
          have hlow := (hp _ h).2
          simp only [isHalf, isHighHalf, isLowHalf, Bool.or_eq_true, Bool.and_eq_true, decide_eq_true_eq] at hhalf
          rw [toNat_ofNat_of_not_isHalf (by omega)] at hlow
          · omega
          · simp only [isHalf, isHighHalf, isLowHalf, Bool.or_eq_false_iff, Bool.and_eq_false_iff,
              decide_eq_false_iff_not]
            omega
        simp [hmark, hcode]
      split
      · simp [hmark]
      · simp [List.countP_cons]
    rw [Nat.add_comm]
    exact Nat.add_le_add ih hhead

/-- Nor does going back. -/
theorem countP_shownMarked_le (s : List Char) : (shownMarked s).countP p ≤ s.countP p := by
  unfold shownMarked
  fun_induction unmarked s with
  | case1 c d s hpair ih =>
    have hhigh : ¬(if (d == mark) = true then mark.toNat else 0xD800 + (d.toNat - 0xE000)) < 0x80 := by
      have hmark : ¬mark.toNat < 0x80 := by decide
      split <;> omega
    generalize (if (d == mark) = true then mark.toNat else 0xD800 + (d.toNat - 0xE000)) = n at hhigh
    have hn : ¬p (shownCode n) = true := fun h => hhigh ((shownCode_eq_iff (hp _ h)).1 rfl ▸ (hp _ h).2)
    rw [shownCodes, List.map_cons, List.countP_cons, List.countP_cons, List.countP_cons, if_neg hn]
    exact Nat.le_trans ih (by omega)
  | case2 c d s hpair ih =>
    rw [shownCodes, List.map_cons, shownCode_toNat, List.countP_cons, List.countP_cons (l := d :: s)]
    exact Nat.add_le_add_right ih _
  | case3 c => exact Nat.le_of_eq (congrArg (fun c => [c].countP p) (shownCode_toNat c))
  | case4 => exact Nat.le_refl 0

end Counts

theorem slash_notMem_shownMarked {s : List Char} (h : '/' ∉ s) : '/' ∉ shownMarked s := by
  intro hm
  obtain ⟨n, hn, hshown⟩ := List.mem_map.1 hm
  rw [shownCode_eq_iff (by decide)] at hshown
  subst hshown
  fun_induction unmarked s with
  | case1 c d s hpair ih =>
    simp only [List.mem_cons, not_or] at h
    rcases List.mem_cons.1 hn with hn | hn
    · have hslash : '/'.toNat < 0x80 := by decide
      have hmark : ¬mark.toNat < 0x80 := by decide
      split at hn <;> omega
    · exact ih h.2.2 (List.mem_map.2 ⟨_, hn, shownCode_toNat _⟩) hn
  | case2 c d s hpair ih =>
    rw [List.mem_cons, not_or] at h
    rcases List.mem_cons.1 hn with hn | hn
    · exact h.1 (Char.toNat_inj.1 hn)
    · exact ih h.2 (List.mem_map.2 ⟨_, hn, shownCode_toNat _⟩) hn
  | case3 c => exact h (List.mem_singleton.2 (Char.toNat_inj.1 (List.mem_singleton.1 hn)))
  | case4 => cases hn

/-- What is shown as points was made of them. -/
theorem eq_of_shownMarked_points {s : List Char} {k : Nat} (h : shownMarked s = List.replicate k '.') :
    s = List.replicate k '.' := by
  rw [← h]
  refine (shownCodes_unmarked fun n hn => ?_).symm
  have hshown : shownCode n ∈ shownMarked s := List.mem_map_of_mem hn
  rw [h] at hshown
  have hpoint := List.eq_of_mem_replicate hshown
  rw [shownCode_eq_iff (by decide)] at hpoint
  subst hpoint
  decide

end Solwright.Text
