import Solwright.Proofs.Text.Scan
import Solwright.Text.Join

/-! Texts that are put together with a separator, and a text that is cut at one. -/

namespace Solwright.Text

/-- Texts put together: the first one, and the others behind a separator each. -/
theorem joined_cons_toList (sep s : String) (ss : List String) :
    (joined sep (s :: ss)).toList = s.toList ++ ss.flatMap fun t => sep.toList ++ t.toList := by
  induction ss generalizing s with
  | nil => simp [joined]
  | cons t ss ih =>
    rw [joined, String.intercalate_cons_cons, ← joined, String.toList_append, String.toList_append, ih,
      List.flatMap_cons, List.append_assoc, List.append_assoc]

/-- Behind texts that are put together, further ones follow behind a separator. -/
theorem joined_append_toList (sep : String) {ss : List String} (h : ss ≠ []) (ts : List String) :
    (joined sep (ss ++ ts)).toList =
      (joined sep ss).toList ++ (if ts.isEmpty then "" else sep ++ joined sep ts).toList := by
  obtain ⟨s, ss, rfl⟩ := List.exists_cons_of_ne_nil h
  rw [List.cons_append, joined_cons_toList, joined_cons_toList, List.flatMap_append, List.append_assoc]
  cases ts with
  | nil => rfl
  | cons t ts =>
    rw [List.isEmpty_cons, if_neg Bool.false_ne_true, String.toList_append, joined_cons_toList,
      List.flatMap_cons, List.append_assoc]

/-- A text is in what it is put together with others to. -/
theorem infix_joined (sep : String) {s : String} {ss : List String} (h : s ∈ ss) :
    s.toList <:+: (joined sep ss).toList := by
  obtain ⟨t, ss, rfl⟩ := List.exists_cons_of_ne_nil (List.ne_nil_of_mem h)
  rw [joined_cons_toList]
  rcases List.mem_cons.1 h with rfl | h
  · exact (List.prefix_append _ _).isInfix
  · obtain ⟨a, b, rfl⟩ := List.append_of_mem h
    refine ⟨t.toList ++ (a.flatMap (fun t => sep.toList ++ t.toList) ++ sep.toList),
      b.flatMap fun t => sep.toList ++ t.toList, ?_⟩
    simp

theorem joined_induction {P : List Char → Prop} (hnil : P [])
    (happend : ∀ {a b}, P a → P b → P (a ++ b)) {sep : String} (hsep : P sep.toList) {ss : List String}
    (h : ∀ s ∈ ss, P s.toList) : P (joined sep ss).toList := by
  cases ss with
  | nil => exact hnil
  | cons s ss =>
    rw [joined_cons_toList]
    rw [List.forall_mem_cons] at h
    refine happend h.1 ?_
    induction ss with
    | nil => exact hnil
    | cons t ss ih =>
      obtain ⟨hs, h⟩ := h
      rw [List.forall_mem_cons] at h
      rw [List.flatMap_cons]
      exact happend (happend hsep h.1) (ih ⟨hs, h.2⟩)

theorem joined_nil_toList (ss : List String) : (joined "" ss).toList = ss.flatMap String.toList := by
  cases ss with
  | nil => rfl
  | cons s ss => simp [joined_cons_toList]

section SplitAt

variable {sep : Char}

theorem splitAt_ne_nil (s : List Char) : splitAt sep s ≠ [] := by
  cases s with
  | nil => exact nofun
  | cons c s =>
    rw [splitAt]
    split
    · exact nofun
    · split <;> exact nofun

theorem splitAt_append_cons (a b : List Char) :
    splitAt sep (a ++ sep :: b) = splitAt sep a ++ splitAt sep b := by
  induction a with
  | nil => simp [splitAt]
  | cons c a ih =>
    rw [List.cons_append, splitAt, splitAt, ih]
    split
    · rfl
    · cases ha : splitAt sep a with
      | nil => exact absurd ha (splitAt_ne_nil a)
      | cons p ps => rfl

theorem splitAt_of_notMem {s : List Char} (h : sep ∉ s) : splitAt sep s = [s] := by
  induction s with
  | nil => rfl
  | cons c s ih =>
    have hc : (c == sep) = false := by
      refine beq_eq_false_iff_ne.2 fun he => h ?_
      rw [he]
      exact List.mem_cons_self
    rw [splitAt, hc, if_neg (by decide), ih fun hm => h (List.mem_cons_of_mem c hm)]

theorem notMem_of_mem_splitAt {s p : List Char} (h : p ∈ splitAt sep s) : sep ∉ p := by
  induction s generalizing p with
  | nil =>
    rw [List.mem_singleton.1 h]
    exact nofun
  | cons c s ih =>
    rw [splitAt] at h
    split at h
    · rcases List.mem_cons.1 h with rfl | h
      · exact nofun
      · exact ih h
    next hc =>
      cases hs : splitAt sep s with
      | nil => exact absurd hs (splitAt_ne_nil s)
      | cons q qs =>
        rw [hs] at h ih
        rcases List.mem_cons.1 h with rfl | h
        · have hne : sep ≠ c := fun he => hc (by rw [he, beq_self_eq_true])
          exact List.not_mem_cons_of_ne_of_not_mem hne (ih List.mem_cons_self)
        · exact ih (List.mem_cons_of_mem q h)

end SplitAt

section JoinWith

variable {sep : Char}

theorem joinWith_cons (s : List Char) (ss : List (List Char)) :
    joinWith [sep] (s :: ss) = s ++ ss.flatMap (sep :: ·) := by
  induction ss generalizing s with
  | nil => simp [joinWith]
  | cons t ss ih =>
    have hjoin : joinWith [sep] (s :: t :: ss) = s ++ [sep] ++ joinWith [sep] (t :: ss) := rfl
    rw [hjoin, ih, List.append_assoc]
    rfl

theorem joinWith_append {ss ts : List (List Char)} (hs : ss ≠ []) (ht : ts ≠ []) :
    joinWith [sep] (ss ++ ts) = joinWith [sep] ss ++ sep :: joinWith [sep] ts := by
  obtain ⟨s, ss, rfl⟩ := List.exists_cons_of_ne_nil hs
  obtain ⟨t, ts, rfl⟩ := List.exists_cons_of_ne_nil ht
  simp [joinWith_cons]

/-- What holds of the parts alone and is carried over a separator. -/
theorem joinWith_append_induction {P : List Char → List Char → List Char → Prop} (hnil : ∀ s, P [] s s)
    (hnil' : ∀ s, P s [] s) (hsep : ∀ s t, P s t (s ++ sep :: t)) (ss ts : List (List Char)) :
    P (joinWith [sep] ss) (joinWith [sep] ts) (joinWith [sep] (ss ++ ts)) := by
  rcases eq_or_ne ss [] with rfl | hs
  · exact hnil _
  rcases eq_or_ne ts [] with rfl | ht
  · rw [List.append_nil]
    exact hnil' _
  rw [joinWith_append hs ht]
  exact hsep _ _

theorem count_joinWith_append {c : Char} (hc : c ≠ sep) (ss ts : List (List Char)) :
    (joinWith [sep] (ss ++ ts)).count c = (joinWith [sep] ss).count c + (joinWith [sep] ts).count c :=
  joinWith_append_induction (P := fun s t u => u.count c = s.count c + t.count c) (by simp) (by simp)
    (by simp [hc.symm]) ss ts

theorem infix_joinWith {s : List Char} {ss : List (List Char)} (h : s ∈ ss) : s <:+: joinWith [sep] ss := by
  obtain ⟨t, ss, rfl⟩ := List.exists_cons_of_ne_nil (List.ne_nil_of_mem h)
  rw [joinWith_cons]
  rcases List.mem_cons.1 h with rfl | h
  · exact (List.prefix_append _ _).isInfix
  · obtain ⟨a, b, rfl⟩ := List.append_of_mem h
    exact ⟨t ++ (a.flatMap (sep :: ·) ++ [sep]), b.flatMap (sep :: ·), by simp⟩

/-- A word without the separator stands in one of the parts. -/
theorem exists_infix_of_joinWith {w : List Char} (hw : w ≠ []) (hsep : sep ∉ w) {ss : List (List Char)}
    (h : w <:+: joinWith [sep] ss) : ∃ s ∈ ss, w <:+: s := by
  induction ss with
  | nil => exact absurd (List.infix_nil.1 h) hw
  | cons s ss ih =>
    cases ss with
    | nil => exact ⟨s, List.mem_cons_self, h⟩
    | cons t ss =>
      obtain ⟨u, v, h⟩ := h
      have hcut : s ++ sep :: joinWith [sep] (t :: ss) = u ++ (w ++ v) := by
        rw [← List.append_assoc, h]
        exact (joinWith_append (List.cons_ne_nil s []) (List.cons_ne_nil t ss)).symm
      rcases cons_of_append_eq hcut with ⟨u', -, hlater⟩ | ⟨q, hq, rfl⟩
      · obtain ⟨p, hp, hin⟩ := ih ⟨u', v, by rw [hlater, List.append_assoc]⟩
        exact ⟨p, List.mem_cons_of_mem s hp, hin⟩
      · obtain ⟨q', -, rfl⟩ := cons_of_append_notMem hsep hq.symm
        exact ⟨_, List.mem_cons_self, u, q', by simp⟩

end JoinWith

end Solwright.Text
