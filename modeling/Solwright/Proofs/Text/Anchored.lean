import Solwright.Proofs.Text.Trim

/-! Scans with a recogniser that answers at the start of a line only and passes over white space there.
White space in front of a text can then do no more than begin a line. -/

namespace Solwright.Text

variable {α : Type} {f : Option Char → List Char → Option (α × List Char)}

/-- A recogniser that answers at the start of a line only, where white space does not matter to it. -/
structure IsAnchored (f : Option Char → List Char → Option (α × List Char)) : Prop where
  inside : ∀ {before s}, atLineStart before = false → f before s = none
  skip : ∀ {before s}, atLineStart before = true → f before s = f none (s.dropWhile isBlank)
  taken : ∀ {before s a rest}, f before s = some (a, rest) → ∃ taken, taken ≠ [] ∧ s = taken ++ rest

theorem dropWhile_blanks {r : List Char} (hr : IsBlank r) (s : List Char) :
    (r ++ s).dropWhile isBlank = s.dropWhile isBlank :=
  List.dropWhile_append_of_pos hr

theorem getLast?_append_or {taken : List Char} (h : taken ≠ []) (r : List Char) (before : Option Char) :
    (r ++ taken).getLast?.or before = taken.getLast?.or none := by
  rw [List.getLast?_append, List.getLast?_eq_some_getLast h]
  rfl

namespace IsAnchored

theorem answer_none (hf : IsAnchored f) {s : List Char} (h : f none s = none) (before : Option Char) :
    f before s = none := by
  cases hb : atLineStart before with
  | false => exact hf.inside hb
  | true => rw [hf.skip hb, ← hf.skip (rfl : atLineStart none = true), h]

/-- Where a text does not begin with an answer, it does not matter what stands before it. -/
theorem matchesFrom_of_none (hf : IsAnchored f) {s : List Char} (h : f none s = none)
    (before before' : Option Char) : matchesFrom f 0 before s = matchesFrom f 0 before' s := by
  cases s with
  | nil => rfl
  | cons c s => rw [matchesFrom, matchesFrom, hf.answer_none h, hf.answer_none h]

/-- In the middle of a line no answer begins, and none on later lines that begin with none. -/
theorem matchesFrom_quiet (hf : IsAnchored f) {a rest : List Char}
    (h : ∀ u v, a = u ++ '\n' :: v → f none (v ++ rest) = none) {before : Option Char}
    (hb : atLineStart before = false ∨ f none (a ++ rest) = none) :
    matchesFrom f 0 before (a ++ rest) = matchesFrom f 0 (a.getLast?.or before) rest := by
  induction a generalizing before with
  | nil => rfl
  | cons c a ih =>
    have hnone : f before (c :: (a ++ rest)) = none := hb.elim hf.inside (hf.answer_none · before)
    rw [List.cons_append, matchesFrom, hnone, getLast?_cons_or]
    refine ih (fun u v hv => h (c :: u) v (by rw [hv]; rfl)) ?_
    by_cases hc : c = '\n'
    · exact .inr (h [] a (by rw [hc]; rfl))
    · exact .inl (by simpa [atLineStart] using hc)

theorem matchesFrom_inside (hf : IsAnchored f) {a : List Char} (ha : '\n' ∉ a) {before : Option Char}
    (hb : atLineStart before = false) (rest : List Char) :
    matchesFrom f 0 before (a ++ rest) = matchesFrom f 0 (a.getLast?.or before) rest := by
  refine hf.matchesFrom_quiet (fun u v hv => ?_) (.inl hb)
  exact absurd (hv ▸ List.mem_append_right u List.mem_cons_self) ha

/-- White space that begins no line. -/
theorem matchesFrom_of_stale (hf : IsAnchored f) {r : List Char} (hr : '\n' ∉ r) {before : Option Char}
    (hb : atLineStart before = false) (s : List Char) :
    ∃ before', atLineStart before' = false ∧
      matchesFrom f 0 before (r ++ s) = matchesFrom f 0 before' s := by
  refine ⟨_, ?_, hf.matchesFrom_inside hr hb s⟩
  cases h : r.getLast? with
  | none => exact hb
  | some d =>
    have hd : d ≠ '\n' := by
      rintro rfl
      exact hr (List.mem_of_getLast? h)
    simpa [atLineStart] using hd

/-- White space that begins a line, or that a line begins with. -/
theorem matchesFrom_of_fresh (hf : IsAnchored f) {r : List Char} (hr : IsBlank r) {before : Option Char}
    (hb : atLineStart before = true ∨ '\n' ∈ r) (s : List Char) :
    matchesFrom f 0 before (r ++ s) = matchesFrom f 0 none s := by
  -- at the start of a line white space is passed over with what follows, as in front of it
  have hsame : ∀ {before : Option Char} {r : List Char}, IsBlank r → atLineStart before = true →
      f before (r ++ s) = f none s := by
    intro before r hr hb
    rw [hf.skip hb, dropWhile_blanks hr, ← hf.skip (rfl : atLineStart none = true)]
  cases h : f none s with
  | none =>
    rw [hf.matchesFrom_quiet (a := r) ?_ (.inr ?_)]
    · exact hf.matchesFrom_of_none h _ _
    · rintro u v rfl
      exact (hsame (fun c hc => hr c (by simp [hc])) rfl).trans h
    · exact (hsame hr rfl).trans h
  | some x =>
    obtain ⟨taken, htaken, hs⟩ := hf.taken h
    have hfind : ∀ {before : Option Char} {r : List Char}, IsBlank r → atLineStart before = true →
        matchesFrom f 0 before (r ++ s) = x.1 :: matchesFrom f 0 (taken.getLast?.or none) x.2 := by
      intro before r hr hb
      have hread : f before ((r ++ taken) ++ x.2) = some (x.1, x.2) := by
        rw [List.append_assoc, ← hs, hsame hr hb, h]
      rw [hs, ← List.append_assoc, matchesFrom_of_some (by simp [htaken]) hread,
        getLast?_append_or htaken]
    have hstart : matchesFrom f 0 none s = x.1 :: matchesFrom f 0 (taken.getLast?.or none) x.2 :=
      hfind (r := []) nofun rfl
    rw [hstart]
    rcases hb with hb | hb
    · exact hfind hr hb
    -- in the middle of a line, the white space up to its end is passed over first
    cases hb' : atLineStart before with
    | true => exact hfind hr hb'
    | false =>
      obtain ⟨u, v, hv, hu⟩ := List.eq_append_cons_of_mem hb
      obtain ⟨before', hbefore', hscan⟩ := hf.matchesFrom_of_stale hu hb' ('\n' :: (v ++ s))
      have hv' : IsBlank v := fun c hc => hr c (by rw [hv]; simp [hc])
      rw [hv, List.append_assoc, List.cons_append, hscan, matchesFrom, hf.inside hbefore']
      exact hfind hv' rfl

/-- What a text finds behind a line end does not depend on what stands before that. -/
theorem matchesFrom_line (hf : IsAnchored f) (before : Option Char) (s : List Char) :
    matchesFrom f 0 before ('\n' :: s) = allMatches f s :=
  hf.matchesFrom_of_fresh (r := ['\n']) (by simp [IsBlank, isBlank]) (.inr List.mem_cons_self) s

end IsAnchored

end Solwright.Text
