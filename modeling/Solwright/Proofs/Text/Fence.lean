import Mathlib.Data.List.TakeWhile
import Solwright.Proofs.Text.Scan
import Solwright.Text.Fence

/-! What becomes of a text when its fences are dropped. A fence reaches over backticks, the word after
them and white space, and over no other character. -/

namespace Solwright.Text

/-- A text without its fences. -/
def unfenced (s : List Char) : List Char :=
  dropMatches afterFence? s

/-- The word that a fence takes. -/
def fenceWord : List Char := "json".toList

/-- A character that a fence may reach over. -/
def isFencing (c : Char) : Bool :=
  c == '`' || fenceWord.contains (foldChar c) || isBlank c

theorem fence_eq : fence = ['`', '`', '`'] := by decide

/-- A word is found where the characters of a text stand for its letters. -/
theorem afterFolded?_eq_some_iff {w s rest : List Char} :
    afterFolded? w s = some rest ↔ ∃ u, s = u ++ rest ∧ u.map foldChar = w := by
  constructor
  · intro h
    induction w generalizing s with
    | nil =>
      obtain rfl : s = rest := by simpa [afterFolded?] using h
      exact ⟨[], rfl, rfl⟩
    | cons d w ih =>
      cases s with
      | nil => cases h
      | cons c s =>
        rw [afterFolded?] at h
        split at h
        next hd =>
          obtain ⟨u, rfl, hu⟩ := ih h
          exact ⟨c :: u, rfl, by rw [List.map_cons, hu, beq_iff_eq.1 hd]⟩
        next => cases h
  · rintro ⟨u, rfl, rfl⟩
    induction u with
    | nil => rfl
    | cons c u ih =>
      rw [List.map_cons, List.cons_append, afterFolded?, if_pos (beq_self_eq_true _)]
      exact ih

/-- A fence begins with its backticks, and what else it takes is of its characters. -/
theorem afterFence?_eq_some {s rest : List Char} (h : afterFence? s = some rest) :
    ∃ u, s = fence ++ (u ++ rest) ∧ ∀ c ∈ u, isFencing c = true := by
  obtain ⟨t, ht, hrest⟩ := Option.map_eq_some_iff.1 h
  rw [after?_eq_some] at ht
  change ((afterFolded? fenceWord t).getD t).dropWhile isBlank = rest at hrest
  have hword : ∃ u, t = u ++ (afterFolded? fenceWord t).getD t ∧ ∀ c ∈ u, isFencing c = true := by
    cases hw : afterFolded? fenceWord t with
    | none => exact ⟨[], rfl, by simp⟩
    | some t' =>
      obtain ⟨u, rfl, hu⟩ := afterFolded?_eq_some_iff.1 hw
      refine ⟨u, rfl, fun c hc => ?_⟩
      have hletter : fenceWord.contains (foldChar c) = true :=
        List.contains_iff_mem.2 (hu ▸ List.mem_map_of_mem hc)
      simp only [isFencing, hletter, Bool.or_true, Bool.true_or]
  obtain ⟨u, hu, hfencing⟩ := hword
  generalize (afterFolded? fenceWord t).getD t = t' at hu hrest
  refine ⟨u ++ t'.takeWhile isBlank, ?_, fun c hc => ?_⟩
  · rw [ht, hu, ← hrest, List.append_assoc, List.takeWhile_append_dropWhile]
  · rcases List.mem_append.1 hc with hc | hc
    · exact hfencing c hc
    · simp only [isFencing, List.mem_takeWhile_imp hc, Bool.or_true]

theorem afterFolded?_append {w : List Char} {c : Char} (hc : w.contains (foldChar c) = false)
    (a s : List Char) : afterFolded? w (a ++ c :: s) = (afterFolded? w a).map (· ++ c :: s) := by
  induction w generalizing a with
  | nil => rfl
  | cons d w ih =>
    simp only [List.contains_cons, Bool.or_eq_false_iff] at hc
    cases a with
    | nil =>
      have hd : (d == foldChar c) = false := by
        rw [beq_eq_false_iff_ne] at hc ⊢
        exact hc.1.symm
      simp [afterFolded?, hd]
    | cons e a =>
      rw [List.cons_append, afterFolded?, afterFolded?]
      split
      · exact ih hc.2 a
      · rfl

theorem dropWhile_append_cons {p : Char → Bool} {c : Char} (hc : p c = false) (a s : List Char) :
    (a ++ c :: s).dropWhile p = a.dropWhile p ++ c :: s := by
  induction a with
  | nil => exact List.dropWhile_cons_of_neg (by simp [hc])
  | cons d a ih =>
    rw [List.cons_append, List.dropWhile_cons, List.dropWhile_cons, ih]
    split <;> rfl

/-- A fence does not reach over a character that is none of its own. -/
theorem afterFence?_append {c : Char} (hc : isFencing c = false) (a s : List Char) :
    afterFence? (a ++ c :: s) = (afterFence? a).map (· ++ c :: s) := by
  simp only [isFencing, Bool.or_eq_false_iff] at hc
  obtain ⟨⟨htick, hword⟩, hblank⟩ := hc
  have hne : c ≠ '`' := by simpa using htick
  have hfence : ∀ d ∈ (c :: s).head?, d ∉ fence := by
    intro d hd
    obtain rfl : c = d := by simpa using hd
    simp [fence_eq, hne]
  unfold afterFence?
  rw [after?_append_of_notMem hfence, Option.map_map, Option.map_map]
  congr 1
  funext t
  change ((afterFolded? fenceWord (t ++ c :: s)).getD (t ++ c :: s)).dropWhile isBlank =
    ((afterFolded? fenceWord t).getD t).dropWhile isBlank ++ c :: s
  rw [afterFolded?_append hword]
  cases afterFolded? fenceWord t with
  | none => exact dropWhile_append_cons hblank t s
  | some t' => exact dropWhile_append_cons hblank t' s

theorem dropMatchesFrom_eq_drop (f : List Char → Option (List Char)) (n : Nat) (s : List Char) :
    dropMatchesFrom f n s = dropMatchesFrom f 0 (s.drop n) := by
  induction n generalizing s with
  | zero => rfl
  | succ n ih =>
    cases s with
    | nil => simp [dropMatchesFrom]
    | cons c s => rw [dropMatchesFrom, List.drop_succ_cons, ih]

theorem unfenced_of_none {c : Char} {s : List Char} (h : afterFence? (c :: s) = none) :
    unfenced (c :: s) = c :: unfenced s := by
  simp only [unfenced, dropMatches, dropMatchesFrom, h]

theorem unfenced_of_some {s rest : List Char} (h : afterFence? s = some rest) :
    unfenced s = unfenced rest := by
  obtain ⟨u, hs, -⟩ := afterFence?_eq_some h
  rw [fence_eq] at hs
  subst hs
  simp only [List.cons_append, List.nil_append] at h ⊢
  simp only [unfenced, dropMatches, dropMatchesFrom, h]
  rw [dropMatchesFrom_eq_drop]
  congr 1
  have hlen : ('`' :: '`' :: (u ++ rest)).length - rest.length = ('`' :: '`' :: u).length := by
    simp only [List.length_cons, List.length_append]
    omega
  rw [hlen]
  exact @List.drop_left _ ('`' :: '`' :: u) rest

theorem unfenced_nil : unfenced [] = [] := rfl

theorem afterFence?_of_ne {c : Char} (hc : c ≠ '`') (s : List Char) : afterFence? (c :: s) = none := by
  rw [afterFence?, fence_eq, after?_of_ne hc.symm]
  rfl

/-- Text without a backtick stays. -/
theorem unfenced_append {a : List Char} (ha : '`' ∉ a) (s : List Char) :
    unfenced (a ++ s) = a ++ unfenced s := by
  induction a with
  | nil => rfl
  | cons c a ih =>
    have hc : c ≠ '`' := by
      rintro rfl
      exact ha List.mem_cons_self
    rw [List.cons_append, unfenced_of_none (afterFence?_of_ne hc _),
      ih fun h => ha (List.mem_cons_of_mem c h)]
    rfl

theorem unfenced_of_notMem {s : List Char} (h : '`' ∉ s) : unfenced s = s := by
  have hs := unfenced_append h []
  rwa [List.append_nil, unfenced_nil, List.append_nil] at hs

/-- Dropping fences goes through a text: a fence with what it takes, or one character that begins none. -/
theorem unfenced_induction {P : List Char → Prop} (nil : P [])
    (fence : ∀ s rest, afterFence? s = some rest → P rest → P s)
    (char : ∀ c s, afterFence? (c :: s) = none → P s → P (c :: s)) (s : List Char) : P s := by
  induction hn : s.length using Nat.strongRecOn generalizing s with
  | ind n ih =>
    cases s with
    | nil => exact nil
    | cons c s =>
      cases hc : afterFence? (c :: s) with
      | none => exact char c s hc (ih s.length (by simp [← hn]) s rfl)
      | some rest =>
        obtain ⟨u, hu, -⟩ := afterFence?_eq_some hc
        refine fence (c :: s) rest hc (ih rest.length ?_ rest rfl)
        rw [← hn, hu, fence_eq]
        simp only [List.length_append, List.length_cons]
        omega

/-- A text is cut at a character that fences do not reach over. -/
theorem unfenced_append_cons {c : Char} (hc : isFencing c = false) (a s : List Char) :
    unfenced (a ++ c :: s) = unfenced a ++ c :: unfenced s := by
  induction a using unfenced_induction with
  | nil =>
    have hne : c ≠ '`' := by
      rintro rfl
      cases hc
    exact unfenced_of_none (afterFence?_of_ne hne s)
  | fence a rest h ih =>
    have hcut := afterFence?_append hc a s
    rw [h] at hcut
    rw [unfenced_of_some h, unfenced_of_some hcut, ih]
  | char d a h ih =>
    have hcut := afterFence?_append hc (d :: a) s
    rw [h, List.cons_append] at hcut
    rw [unfenced_of_none h, List.cons_append, unfenced_of_none hcut, ih, List.cons_append]

theorem unfenced_of_fence {s : List Char} (h : fence <+: s) :
    ∃ u rest, s = fence ++ (u ++ rest) ∧ (∀ c ∈ u, isFencing c = true) ∧
      unfenced s = unfenced rest := by
  obtain ⟨t, rfl⟩ := h
  have hsome : ∃ rest, afterFence? (fence ++ t) = some rest := by
    rw [afterFence?, after?_append]
    exact ⟨_, rfl⟩
  obtain ⟨rest, hrest⟩ := hsome
  obtain ⟨u, hu, hfencing⟩ := afterFence?_eq_some hrest
  exact ⟨u, rest, hu, hfencing, unfenced_of_some hrest⟩

theorem unfenced_of_no_fence {c : Char} {s : List Char} (h : ¬fence <+: c :: s) :
    unfenced (c :: s) = c :: unfenced s := by
  apply unfenced_of_none
  rw [Option.eq_none_iff_forall_ne_some]
  intro rest hrest
  obtain ⟨u, hu, -⟩ := afterFence?_eq_some hrest
  exact h ⟨u ++ rest, hu.symm⟩

theorem unfenced_of_not_isInfix {s : List Char} (h : ¬fence <:+: s) : unfenced s = s := by
  induction s with
  | nil => rfl
  | cons c s ih =>
    rw [unfenced_of_no_fence fun hp => h hp.isInfix, ih fun hi => h (List.infix_cons hi)]

/-- A fence does not begin in text without a backtick. -/
theorem isInfix_of_append {a s : List Char} (ha : '`' ∉ a) (h : fence <:+: a ++ s) : fence <:+: s := by
  induction a with
  | nil => exact h
  | cons c a ih =>
    rw [List.cons_append, List.infix_cons_iff] at h
    rcases h with h | h
    · rw [fence_eq, List.cons_prefix_cons] at h
      exact absurd h.1 (List.ne_of_not_mem_cons ha)
    · exact ih (List.not_mem_of_not_mem_cons ha) h

end Solwright.Text
