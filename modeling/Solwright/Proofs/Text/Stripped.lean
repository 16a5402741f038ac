import Solwright.Proofs.Text.Fence
import Solwright.Proofs.Text.Trim

/-! What is left of a text without its fences and the white space around it. No new fence comes about where one
is dropped, so nothing more is dropped from what is left, and a fence on lines of its own around the text goes
with those inside it. -/

namespace Solwright.Text

/-- A backtick that begins no fence is followed by the same backticks afterwards. -/
theorem not_isPrefix_unfenced {c : Char} {s : List Char} (h : ¬fence <+: c :: s) :
    ¬fence <+: c :: unfenced s := by
  intro hp
  simp only [fence_eq, List.cons_prefix_cons] at h hp
  obtain ⟨rfl, hp⟩ := hp
  rcases s with _ | ⟨d, s⟩
  · simp [unfenced_nil] at hp
  have hd : ¬fence <+: d :: s := by
    rw [fence_eq]
    rintro ⟨t, ht⟩
    obtain ⟨rfl, rfl⟩ := List.cons.inj ht
    exact h (by simp)
  rw [unfenced_of_no_fence hd, List.cons_prefix_cons] at hp
  obtain ⟨rfl, hp⟩ := hp
  rcases s with _ | ⟨e, s⟩
  · simp [unfenced_nil] at hp
  have he : e ≠ '`' := by
    rintro rfl
    exact h (by simp)
  rw [unfenced_of_none (afterFence?_of_ne he s), List.cons_prefix_cons] at hp
  exact he hp.1.symm

/-- Backticks that are left over stand in front of what they stood in front of, so they do not come together. -/
theorem not_isInfix_unfenced (s : List Char) : ¬fence <:+: unfenced s := by
  induction s using unfenced_induction with
  | nil => simp [unfenced_nil, fence_eq]
  | fence s rest h ih => rwa [unfenced_of_some h]
  | char c s h ih =>
    rw [unfenced_of_none h, List.infix_cons_iff]
    rintro (hp | hi)
    · refine not_isPrefix_unfenced ?_ hp
      rintro ⟨t, ht⟩
      rw [← ht, afterFence?, after?_append] at h
      cases h
    · exact ih hi

/-- White space in front stays in front, whatever is dropped after it. -/
theorem trim_unfenced_dropWhile (s : List Char) : trim (unfenced (s.dropWhile isBlank)) = trim (unfenced s) := by
  have hblank : IsBlank (s.takeWhile isBlank) := fun c hc => List.mem_takeWhile_imp hc
  have hplain : '`' ∉ s.takeWhile isBlank := fun h => absurd (hblank _ h) (by decide)
  calc trim (unfenced (s.dropWhile isBlank))
      = trim (s.takeWhile isBlank ++ unfenced (s.dropWhile isBlank)) :=
        (trim_append_of_isBlank_left hblank _).symm
    _ = trim (unfenced (s.takeWhile isBlank ++ s.dropWhile isBlank)) := by rw [unfenced_append hplain]
    _ = trim (unfenced s) := by rw [List.takeWhile_append_dropWhile]

/-- The word that a fence may have: `json` in any case, or none. -/
def IsFenceWord (w : List Char) : Prop := w = [] ∨ w.map foldChar = fenceWord

instance (w : List Char) : Decidable (IsFenceWord w) := inferInstanceAs (Decidable (_ ∨ _))

/-- A text between the lines of a fence with a word. -/
def fenced (w t : List Char) : List Char := fence ++ (w ++ '\n' :: (t ++ '\n' :: fence))

/-- The opening line of a fence goes with the white space behind it. -/
theorem unfenced_opening {w : List Char} (hw : IsFenceWord w) (s : List Char) :
    unfenced (fence ++ (w ++ '\n' :: s)) = unfenced (s.dropWhile isBlank) := by
  have hword : ((afterFolded? fenceWord (w ++ '\n' :: s)).getD (w ++ '\n' :: s)) = '\n' :: s := by
    rcases hw with rfl | hw
    · have hnone : afterFolded? fenceWord ('\n' :: s) = none := rfl
      simp [hnone]
    · rw [afterFolded?_eq_some_iff.2 ⟨w, rfl, hw⟩, Option.getD_some]
  apply unfenced_of_some
  rw [afterFence?, after?_append, Option.map_some]
  change some (List.dropWhile isBlank ((afterFolded? fenceWord _).getD _)) = _
  rw [hword, List.dropWhile_cons_of_pos (by decide)]

/-- A fence that stands last takes the white space up to a closing line, and leaves that to be dropped next. -/
theorem afterFence?_closing {s rest : List Char} (h : afterFence? s = some rest) :
    afterFence? (s ++ '\n' :: fence) = some (rest ++ '\n' :: fence) ∨
      rest = [] ∧ afterFence? (s ++ '\n' :: fence) = some fence := by
  obtain ⟨t, ht, hrest⟩ := Option.map_eq_some_iff.1 h
  rw [after?_eq_some] at ht
  change ((afterFolded? fenceWord t).getD t).dropWhile isBlank = rest at hrest
  have hafter : afterFence? (s ++ '\n' :: fence) =
      some (((afterFolded? fenceWord t).getD t ++ '\n' :: fence).dropWhile isBlank) := by
    rw [ht, List.append_assoc, afterFence?, after?_append, Option.map_some]
    change some (List.dropWhile isBlank ((afterFolded? fenceWord _).getD _)) = _
    rw [afterFolded?_append (by decide)]
    cases afterFolded? fenceWord t <;> rfl
  rw [hafter, List.dropWhile_append, hrest]
  cases rest with
  | nil => exact .inr ⟨rfl, rfl⟩
  | cons c rest => exact .inl rfl

/-- The closing line of a fence leaves white space at most, whatever stands in front of it. -/
theorem unfenced_closing (s : List Char) : ∃ b, IsBlank b ∧ unfenced (s ++ '\n' :: fence) = unfenced s ++ b := by
  have hnone : IsBlank [] := by simp [IsBlank]
  induction s using unfenced_induction with
  | nil => exact ⟨['\n'], by simp [IsBlank]; decide, rfl⟩
  | fence s rest h ih =>
    rw [unfenced_of_some h]
    rcases afterFence?_closing h with hclosing | ⟨rfl, hclosing⟩
    · rw [unfenced_of_some hclosing]
      exact ih
    · rw [unfenced_of_some hclosing]
      exact ⟨[], hnone, rfl⟩
  | char c s h ih =>
    have hclosing : afterFence? (c :: s ++ '\n' :: fence) = none := by
      rw [afterFence?, Option.map_eq_none_iff] at h ⊢
      rw [after?_append_of_notMem (by simp [fence_eq]), h]
      rfl
    obtain ⟨b, hb, hs⟩ := ih
    refine ⟨b, hb, ?_⟩
    rw [List.cons_append] at hclosing ⊢
    rw [unfenced_of_none hclosing, unfenced_of_none h, hs, List.cons_append]

theorem stripFences_eq (s : List Char) : stripFences s = trim (unfenced s) := rfl

theorem not_isInfix_stripFences (s : List Char) : ¬fence <:+: stripFences s :=
  fun h => not_isInfix_unfenced s (h.trans (trim_isInfix _))

/-- A text without fences and without white space around it stays as it is. -/
theorem stripFences_of_bare {s : List Char} (h : ¬fence <:+: s) (hhead : s.head?.any isBlank = false)
    (hlast : s.getLast?.any isBlank = false) : stripFences s = s := by
  rw [stripFences_eq, unfenced_of_not_isInfix h, trim_of_visible_ends hhead hlast]

/-- A fence around a text makes no difference to what is left of it. -/
theorem stripFences_fenced {w : List Char} (hw : IsFenceWord w) (s : List Char) :
    stripFences (fenced w s) = stripFences s := by
  obtain ⟨b, hb, hclosing⟩ := unfenced_closing s
  rw [stripFences_eq, fenced, unfenced_opening hw, trim_unfenced_dropWhile, hclosing,
    trim_append_of_isBlank _ hb]
  rfl

end Solwright.Text
