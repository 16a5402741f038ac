import Solwright.Proofs.Text.Scan

/-! Searches for the first place at which a recogniser answers. A word without a border, which no
proper end of it begins, is found no earlier for standing after some text. -/

namespace Solwright.Text

variable {α : Type} {f : Option Char → List Char → Option α}

/-- A place at which a recogniser answers ends the search. -/
theorem firstMatch_of_some {before : Option Char} {s : List Char} {a : α} (h : f before s = some a) :
    firstMatch f before s = some a := by
  cases s with
  | nil => exact h
  | cons c s => simp only [firstMatch, h]

/-- Text in which no answer begins is passed over. -/
theorem firstMatch_append {before : Option Char} {a s : List Char}
    (h : ∀ u v, a = u ++ v → v ≠ [] → f (u.getLast?.or before) (v ++ s) = none) :
    firstMatch f before (a ++ s) = firstMatch f (a.getLast?.or before) s := by
  induction a generalizing before with
  | nil => rfl
  | cons c a ih =>
    have hfirst : f before (c :: (a ++ s)) = none := h [] (c :: a) rfl nofun
    rw [List.cons_append, getLast?_cons_or]
    simp only [firstMatch, hfirst]
    refine ih fun u v hv hne => ?_
    rw [← getLast?_cons_or]
    exact h (c :: u) v (by rw [hv]; rfl) hne

/-- Nothing is found exactly where nothing is found at any place. -/
theorem firstMatch_eq_none_iff {before : Option Char} {s : List Char} : firstMatch f before s = none ↔
    ∀ u v, s = u ++ v → f (u.getLast?.or before) v = none := by
  constructor
  · intro h u
    induction u generalizing before s with
    | nil =>
      rintro v rfl
      rw [Option.eq_none_iff_forall_ne_some]
      intro a (ha : f before _ = some a)
      rw [firstMatch_of_some ha] at h
      cases h
    | cons c u ih =>
      rintro v rfl
      rw [List.cons_append, firstMatch] at h
      split at h
      · cases h
      · rw [getLast?_cons_or]
        exact ih h v rfl
  · intro h
    have hpassed : firstMatch f before (s ++ []) = firstMatch f (s.getLast?.or before) [] := by
      apply firstMatch_append
      intro u v hs _
      rw [List.append_nil]
      exact h u v hs
    rw [List.append_nil] at hpassed
    rw [hpassed]
    exact h s [] (List.append_nil s).symm

/-- What is found is found at a place, and nothing at any place before it. -/
theorem firstMatch_eq_some_iff {before : Option Char} {s : List Char} {a : α} :
    firstMatch f before s = some a ↔ ∃ u v, s = u ++ v ∧ f (u.getLast?.or before) v = some a ∧
      ∀ x y, u = x ++ y → y ≠ [] → f (x.getLast?.or before) (y ++ v) = none := by
  constructor
  · intro h
    induction s generalizing before with
    | nil => exact ⟨[], [], rfl, h, by simp⟩
    | cons c s ih =>
      rw [firstMatch] at h
      split at h
      next hfirst => exact ⟨[], c :: s, rfl, hfirst.trans h, by simp⟩
      next hfirst =>
        obtain ⟨u, v, rfl, hfound, hnone⟩ := ih h
        refine ⟨c :: u, v, rfl, by rwa [getLast?_cons_or], fun x y hxy hne => ?_⟩
        rcases List.cons_eq_append_iff.1 hxy with ⟨rfl, rfl⟩ | ⟨x, rfl, rfl⟩
        · exact hfirst
        · rw [getLast?_cons_or]
          exact hnone x y rfl hne
  · rintro ⟨u, v, rfl, hfound, hnone⟩
    rw [firstMatch_append hnone]
    exact firstMatch_of_some hfound

/-- No proper end of a word begins it. -/
def Borderless (w : List Char) : Prop :=
  ∀ n < w.length, 0 < n → ¬w.drop n <+: w

instance (w : List Char) : Decidable (Borderless w) := by
  unfold Borderless
  infer_instance

/-- Where a borderless word begins in front of itself, it ends there too. -/
theorem Borderless.isPrefix {w v s : List Char} (hw : Borderless w) (hv : v ≠ [])
    (h : w <+: v ++ (w ++ s)) : w <+: v := by
  by_contra hnot
  have hlt : v.length < w.length := by
    rw [← Nat.not_le]
    intro hle
    exact hnot (List.prefix_of_prefix_length_le h (List.prefix_append v _) hle)
  have hprefix : v <+: w := List.prefix_of_prefix_length_le (List.prefix_append v _) h hlt.le
  obtain ⟨r, rfl⟩ := hprefix
  rw [List.prefix_append_right_inj] at h
  have hborder : r <+: v ++ r :=
    List.prefix_of_prefix_length_le h (List.prefix_append _ s) (by simp)
  apply hw v.length hlt (List.length_pos_iff.2 hv)
  rwa [List.drop_left]

/-- A borderless word that does not stand in a text begins nowhere in it in front of itself. -/
theorem Borderless.not_isPrefix {w x y s : List Char} (hw : Borderless w) (h : ¬w <:+: x ++ y)
    (hy : y ≠ []) : ¬w <+: y ++ (w ++ s) := by
  intro hprefix
  have hstands := (hw.isPrefix hy hprefix).isInfix
  exact h (hstands.trans (List.suffix_append x y).isInfix)

end Solwright.Text
