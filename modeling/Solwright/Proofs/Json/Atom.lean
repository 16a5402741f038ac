import Mathlib.Data.List.TakeWhile
import Mathlib.Tactic.SplitIfs
import Solwright.Json.Token
import Solwright.Proofs.Text.Scan

/-! The words and numerals of JSON. Where one ends does not depend on what follows, as long as that
begins with white space or a mark. -/

namespace Solwright.Json

open Solwright.Number Solwright.Text

/-- A character that no word or numeral goes on in. -/
def isStop (c : Char) : Bool :=
  isSpace c || (mark? c).isSome

/-- A text in front of which a word or numeral ends. -/
def Ends (s : List Char) : Prop := ∀ c ∈ s.head?, isStop c = true

/-- A character of a word or numeral. -/
def isAtomChar (c : Char) : Bool :=
  c.isAlphanum || c == '-' || c == '+' || c == '.'

theorem isStop_cases {c : Char} (h : isStop c = true) :
    c ∈ [' ', '\t', '\n', '\r', '[', ']', '{', '}', ',', ':'] := by
  unfold isStop isSpace mark? at h
  simp only [List.mem_cons]
  split_ifs at h <;> simp_all [or_assoc]

theorem isAtomChar_of_isStop {c : Char} (h : isStop c = true) : isAtomChar c = false := by
  have hall : [' ', '\t', '\n', '\r', '[', ']', '{', '}', ',', ':'].all fun c => !isAtomChar c := by decide
  simpa using List.all_eq_true.1 hall c (isStop_cases h)

theorem Ends.ne {s : List Char} {c d : Char} (h : Ends (c :: s)) (hd : isAtomChar d = true) : c ≠ d := by
  rintro rfl
  rw [isAtomChar_of_isStop (h c rfl)] at hd
  cases hd

theorem Ends.isDigit {s : List Char} {c : Char} (h : Ends (c :: s)) : c.isDigit = false := by
  have hc := isAtomChar_of_isStop (h c rfl)
  simp only [isAtomChar, Char.isAlphanum, Bool.or_eq_false_iff] at hc
  exact hc.1.1.1.2

variable {s : List Char}

theorem Ends.takeWhile (h : Ends s) (x : List Char) :
    (x ++ s).takeWhile Char.isDigit = x.takeWhile Char.isDigit := by
  induction x with
  | nil =>
    cases s with
    | nil => rfl
    | cons c s => exact List.takeWhile_cons_of_neg (by simp [h.isDigit])
  | cons c x ih =>
    rw [List.cons_append, List.takeWhile_cons, List.takeWhile_cons, ih]

theorem Ends.dropWhile (h : Ends s) (x : List Char) :
    (x ++ s).dropWhile Char.isDigit = x.dropWhile Char.isDigit ++ s := by
  induction x with
  | nil =>
    cases s with
    | nil => rfl
    | cons c s => exact List.dropWhile_cons_of_neg (by simp [h.isDigit])
  | cons c x ih =>
    rw [List.cons_append, List.dropWhile_cons, List.dropWhile_cons, ih]
    split <;> rfl

theorem Ends.takeWhole? (h : Ends s) (x : List Char) :
    takeWhole? (x ++ s) = (Json.takeWhole? x).map fun (w, r) => (w, r ++ s) := by
  cases x with
  | nil =>
    cases s with
    | nil => rfl
    | cons c s =>
      have hc : c ≠ '0' := h.ne (by decide)
      simp [Json.takeWhole?, h.isDigit]
  | cons c x =>
    by_cases hc : c = '0'
    · subst hc
      rfl
    · simp only [List.cons_append, Json.takeWhole?, h.takeWhile, h.dropWhile]
      split <;> rfl

theorem takeFraction_of_ne {c : Char} (h : c ≠ '.') (s : List Char) :
    takeFraction (c :: s) = ([], c :: s) := by
  rw [takeFraction.eq_2]
  rintro d t hs
  exact h (List.cons.inj hs).1

theorem Ends.takeFraction (h : Ends s) (x : List Char) :
    takeFraction (x ++ s) = ((Json.takeFraction x).1, (Json.takeFraction x).2 ++ s) := by
  match x with
  | [] =>
    cases s with
    | nil => rfl
    | cons c s => exact takeFraction_of_ne (h.ne (by decide)) s
  | [c] =>
    by_cases hc : c = '.'
    · subst hc
      cases s with
      | nil => rfl
      | cons d s => simp [Json.takeFraction, h.isDigit]
    · rw [takeFraction_of_ne hc, List.cons_append, takeFraction_of_ne hc]
  | c :: d :: x =>
    by_cases hc : c = '.'
    · subst hc
      simp only [List.cons_append, Json.takeFraction, h.takeWhile, h.dropWhile]
      split <;> rfl
    · rw [takeFraction_of_ne hc, List.cons_append, takeFraction_of_ne hc]

theorem takeSign_of_ne {c : Char} (h : c ≠ '-') (h' : c ≠ '+') (s : List Char) :
    takeSign (c :: s) = (false, c :: s) := by
  rw [takeSign.eq_3]
  · rintro t hs
    exact h (List.cons.inj hs).1
  · rintro t hs
    exact h' (List.cons.inj hs).1

theorem Ends.takeSign (h : Ends s) (x : List Char) :
    takeSign (x ++ s) = ((Number.takeSign x).1, (Number.takeSign x).2 ++ s) := by
  cases x with
  | nil =>
    cases s with
    | nil => rfl
    | cons c s => exact takeSign_of_ne (h.ne (by decide)) (h.ne (by decide)) s
  | cons c x =>
    by_cases hm : c = '-'
    · subst hm
      rfl
    · by_cases hp : c = '+'
      · subst hp
        rfl
      · rw [takeSign_of_ne hm hp, List.cons_append, takeSign_of_ne hm hp]

theorem Ends.takePower (h : Ends s) (x : List Char) : takePower (x ++ s) =
    ((Json.takePower x).1, (Json.takePower x).2.1, (Json.takePower x).2.2 ++ s) := by
  cases x with
  | nil =>
    cases s with
    | nil => rfl
    | cons c s =>
      have he : c ≠ 'e' := h.ne (by decide)
      have hE : c ≠ 'E' := h.ne (by decide)
      simp [Json.takePower, he, hE]
  | cons c x =>
    simp only [List.cons_append, Json.takePower, h.takeSign, h.takeWhile, h.dropWhile,
      List.length_append, Nat.add_lt_add_iff_right]
    split
    · split <;> rfl
    · rfl

theorem Ends.takeUnsigned? (h : Ends s) (negative : Bool) (x : List Char) :
    takeUnsigned? negative (x ++ s) =
      (Json.takeUnsigned? negative x).map fun (n, r) => (n, r ++ s) := by
  simp only [Json.takeUnsigned?, h.takeWhole?, Option.map_map]
  cases Json.takeWhole? x with
  | none => rfl
  | some wr => simp [h.takeFraction, h.takePower]

theorem takeNumeral?_of_ne {c : Char} (h : c ≠ '-') (s : List Char) :
    takeNumeral? (c :: s) = takeUnsigned? false (c :: s) := by
  rw [takeNumeral?.eq_2]
  rintro t hs
  exact h (List.cons.inj hs).1

/-- A numeral ends in front of white space and marks. -/
theorem Ends.takeNumeral? (h : Ends s) (x : List Char) :
    takeNumeral? (x ++ s) = (Json.takeNumeral? x).map fun (n, r) => (n, r ++ s) := by
  cases x with
  | nil =>
    cases s with
    | nil => rfl
    | cons c s =>
      have hx := h.takeUnsigned? false []
      rw [List.nil_append] at hx ⊢
      rw [takeNumeral?_of_ne (h.ne (by decide)), hx]
      rfl
  | cons c x =>
    by_cases hm : c = '-'
    · subst hm
      exact h.takeUnsigned? true x
    · rw [takeNumeral?_of_ne hm, List.cons_append, takeNumeral?_of_ne hm, ← List.cons_append]
      exact h.takeUnsigned? false (c :: x)

/-- A text that goes on with a rest after characters of words and numerals. -/
def Takes (s rest : List Char) : Prop := ∃ a, s = a ++ rest ∧ ∀ c ∈ a, isAtomChar c = true

theorem Takes.refl (s : List Char) : Takes s s := ⟨[], rfl, fun _ hc => absurd hc List.not_mem_nil⟩

theorem Takes.trans {s t u : List Char} (h : Takes s t) (h' : Takes t u) : Takes s u := by
  obtain ⟨a, rfl, ha⟩ := h
  obtain ⟨b, rfl, hb⟩ := h'
  refine ⟨a ++ b, (List.append_assoc a b u).symm, fun c hc => ?_⟩
  exact (List.mem_append.1 hc).elim (ha c) (hb c)

theorem Takes.cons {c : Char} {s t : List Char} (hc : isAtomChar c = true) (h : Takes s t) :
    Takes (c :: s) t := by
  obtain ⟨a, rfl, ha⟩ := h
  refine ⟨c :: a, rfl, fun d hd => ?_⟩
  rcases List.mem_cons.1 hd with rfl | hd
  · exact hc
  · exact ha d hd

theorem isAtomChar_of_isDigit {c : Char} (h : c.isDigit = true) : isAtomChar c = true := by
  simp [isAtomChar, Char.isAlphanum, h]

theorem takes_dropWhile (s : List Char) : Takes s (s.dropWhile Char.isDigit) :=
  ⟨s.takeWhile Char.isDigit, List.takeWhile_append_dropWhile.symm,
    fun _ hc => isAtomChar_of_isDigit (List.mem_takeWhile_imp hc)⟩

theorem takes_takeWhole {w r : List Char} (h : takeWhole? s = some (w, r)) :
    ∃ c t, s = c :: t ∧ c.isDigit = true ∧ Takes t r := by
  unfold takeWhole? at h
  split at h
  next t =>
    cases h
    exact ⟨'0', r, rfl, by decide, .refl r⟩
  next c t _ =>
    split at h
    next hc =>
      cases h
      exact ⟨c, t, rfl, hc, takes_dropWhile t⟩
    next => cases h
  next => cases h

theorem takes_takeFraction (s : List Char) : Takes s (takeFraction s).2 := by
  unfold takeFraction
  split
  next d t =>
    split
    next hd => exact .cons (by decide) (.cons (isAtomChar_of_isDigit hd) (takes_dropWhile t))
    next => exact .refl _
  next => exact .refl s

theorem takes_takeSign (s : List Char) : Takes s (takeSign s).2 := by
  unfold takeSign
  split
  next t => exact .cons (by decide) (.refl t)
  next t => exact .cons (by decide) (.refl t)
  next => exact .refl s

theorem takes_takePower (s : List Char) : Takes s (takePower s).2.2 := by
  unfold takePower
  split
  next e t =>
    split
    next he =>
      have hatom : isAtomChar e = true := by
        simp only [Bool.or_eq_true, beq_iff_eq] at he
        rcases he with rfl | rfl <;> decide
      dsimp only
      split
      · exact .refl _
      · exact .cons hatom ((takes_takeSign t).trans (takes_dropWhile _))
    next => exact .refl _
  next => exact .refl _

theorem takes_takeUnsigned {negative : Bool} {n : NumeralParts} {r : List Char}
    (h : takeUnsigned? negative s = some (n, r)) :
    ∃ c t, s = c :: t ∧ c.isDigit = true ∧ Takes t r := by
  obtain ⟨⟨w, u⟩, hw, hr⟩ := Option.map_eq_some_iff.1 h
  obtain ⟨c, t, hs, hc, ht⟩ := takes_takeWhole hw
  refine ⟨c, t, hs, hc, ht.trans ?_⟩
  cases hr
  exact (takes_takeFraction u).trans (takes_takePower _)

/-- A numeral begins with a digit, a sign apart. -/
theorem takes_takeNumeral {n : NumeralParts} {r : List Char} (h : takeNumeral? s = some (n, r)) :
    (∃ c t, s = c :: t ∧ c.isDigit = true ∧ Takes t r) ∨
      ∃ c t, s = '-' :: c :: t ∧ c.isDigit = true ∧ Takes t r := by
  unfold takeNumeral? at h
  split at h
  next s' =>
    obtain ⟨c, t, rfl, hc, ht⟩ := takes_takeUnsigned h
    exact .inr ⟨c, t, rfl, hc, ht⟩
  next => exact .inl (takes_takeUnsigned h)

/-- The words are made of letters and a sign, and no digit is among their first two characters. -/
theorem literals_spec : ∀ l ∈ literals, (∀ c ∈ l.1, isAtomChar c = true) ∧
    ∃ c d w, l.1 = c :: d :: w ∧ c.isDigit = false ∧ d.isDigit = false := by
  have hall : literals.all fun l => l.1.all isAtomChar &&
      ((l.1.take 2).length == 2 && (l.1.take 2).all fun c => !c.isDigit) := by decide
  intro l hl
  have h := List.all_eq_true.1 hall l hl
  rw [Bool.and_eq_true, List.all_eq_true] at h
  refine ⟨h.1, ?_⟩
  rcases hw : l.1 with _ | ⟨c, _ | ⟨d, w⟩⟩
  · simp [hw] at h
  · simp [hw] at h
  · exact ⟨c, d, w, rfl, by simpa [hw] using h.2⟩

/-- A word ends in front of white space and marks. -/
theorem Ends.takeLiteral? (h : Ends s) (x : List Char) :
    takeLiteral? (x ++ s) = (Json.takeLiteral? x).map fun (v, n, r) => (v, n, r ++ s) := by
  have hafter : ∀ l ∈ literals, after? l.1 (x ++ s) = (after? l.1 x).map (· ++ s) := by
    intro l hl
    refine after?_append_of_notMem (fun c hc hw => ?_) x
    have hatom := (literals_spec l hl).1 c hw
    rw [isAtomChar_of_isStop (h c hc)] at hatom
    cases hatom
  unfold Json.takeLiteral?
  generalize literals = ls at hafter
  induction ls with
  | nil => rfl
  | cons l ls ih =>
    have hl := hafter l List.mem_cons_self
    obtain ⟨w, v⟩ := l
    dsimp only at hl
    have ih := ih fun l hl => hafter l (List.mem_cons_of_mem _ hl)
    rw [List.findSome?_cons, List.findSome?_cons]
    dsimp only
    rw [hl, ih]
    cases after? w x <;> rfl

theorem takes_takeLiteral {v : Json} {n : Nat} {c : Char} {t r : List Char}
    (h : takeLiteral? (c :: t) = some (v, n, r)) : isAtomChar c = true ∧ Takes t r := by
  obtain ⟨l, hl, hr⟩ := List.exists_of_findSome?_eq_some h
  obtain ⟨hatom, d, e, w, hw, -⟩ := literals_spec l hl
  obtain ⟨r', hafter, hr'⟩ := Option.map_eq_some_iff.1 hr
  obtain ⟨-, -, rfl⟩ : l.2 = v ∧ l.1.length = n ∧ r' = r := by simpa using hr'
  rw [after?_eq_some, hw, List.cons_append] at hafter
  obtain ⟨rfl, rfl⟩ := List.cons.inj hafter
  rw [hw] at hatom
  exact ⟨hatom c List.mem_cons_self, e :: w, rfl, fun d hd => hatom d (List.mem_cons_of_mem c hd)⟩

/-- No word begins as a numeral does. -/
theorem takeLiteral?_digit {c : Char} (hc : c.isDigit = true) (t : List Char) :
    takeLiteral? (c :: t) = none ∧ takeLiteral? ('-' :: c :: t) = none := by
  have hne : ∀ d : Char, d.isDigit = false → d ≠ c := by
    rintro d hd rfl
    rw [hc] at hd
    cases hd
  unfold takeLiteral?
  rw [List.findSome?_eq_none_iff, List.findSome?_eq_none_iff]
  constructor
  · rintro ⟨w, v⟩ hl
    obtain ⟨-, d, e, w', hw, hd, -⟩ := literals_spec _ hl
    dsimp only at hw ⊢
    rw [hw, after?_of_ne (hne d hd)]
    rfl
  · rintro ⟨w, v⟩ hl
    obtain ⟨-, d, e, w', hw, -, he⟩ := literals_spec _ hl
    dsimp only at hw ⊢
    rw [hw, after?]
    split
    · rw [after?_of_ne (hne e he)]
      rfl
    · rfl

end Solwright.Json
