import Mathlib.Data.List.TakeWhile
import Solwright.Text.Scan

/-! Recognisers of words at the start of a text. -/

namespace Solwright.Text

theorem after?_of_ne {c d : Char} (h : c ≠ d) (w s : List Char) : after? (c :: w) (d :: s) = none := by
  simp [after?, h]

theorem after?_append (w s : List Char) : after? w (w ++ s) = some s := by
  induction w with
  | nil => rfl
  | cons c w ih => simpa [after?] using ih

theorem after?_eq_some {w s rest : List Char} : after? w s = some rest ↔ s = w ++ rest := by
  constructor
  · intro h
    induction w generalizing s with
    | nil => simpa [after?] using h
    | cons c w ih =>
      cases s with
      | nil => cases h
      | cons d s =>
        rw [after?] at h
        split at h
        next hc => rw [ih h, beq_iff_eq.1 hc]; rfl
        next => cases h
  · rintro rfl
    exact after?_append w rest

/-- A word is not found across a character that it does not have. -/
theorem after?_append_of_notMem {w : List Char} {s : List Char} (hs : ∀ c ∈ s.head?, c ∉ w)
    (x : List Char) : after? w (x ++ s) = (after? w x).map (· ++ s) := by
  induction w generalizing x with
  | nil => rfl
  | cons c w ih =>
    cases x with
    | nil =>
      cases s with
      | nil => rfl
      | cons d s =>
        have hne : c ≠ d := by
          rintro rfl
          exact hs c rfl List.mem_cons_self
        exact after?_of_ne hne w s
    | cons d x =>
      rw [List.cons_append, after?, after?]
      split
      · exact ih (fun e he hw => hs e he (List.mem_cons_of_mem c hw)) x
      · rfl

/-- A word is looked for in a text alone, unless the text ends inside the word. -/
theorem after?_append_of_apart {w t : List Char} (h : t <+: w → t = w) (rest : List Char) :
    after? w (t ++ rest) = (after? w t).map (· ++ rest) := by
  induction w generalizing t with
  | nil => rfl
  | cons c w ih =>
    cases t with
    | nil => exact absurd (h (List.nil_prefix)) nofun
    | cons d t =>
      rw [List.cons_append, after?, after?]
      split
      next hc =>
        obtain rfl := beq_iff_eq.1 hc
        exact ih fun ht => List.tail_eq_of_cons_eq (h ((List.prefix_cons_inj c).2 ht))
      next => rfl

theorem dropWhile_append_of_mem {p : Char → Bool} {t : List Char} (h : ∃ c ∈ t, p c = false)
    (rest : List Char) : (t ++ rest).dropWhile p = t.dropWhile p ++ rest := by
  obtain ⟨c, hc, hp⟩ := h
  rw [List.dropWhile_append, if_neg]
  rw [List.isEmpty_iff, List.dropWhile_eq_nil_iff]
  intro hall
  rw [hall c hc] at hp
  cases hp

/-- A character that ends a run is not dropped with it. -/
theorem mem_dropWhile {p : Char → Bool} {t : List Char} {c : Char} (hc : c ∈ t) (hp : p c = false) :
    c ∈ t.dropWhile p := by
  rw [← t.takeWhile_append_dropWhile (p := p)] at hc
  refine (List.mem_append.1 hc).resolve_left fun hc => ?_
  rw [List.mem_takeWhile_imp hc] at hp
  cases hp

theorem afterSome?_append {p : Char → Bool} {t : List Char} (h : ∃ c ∈ t, p c = false) (rest : List Char) :
    afterSome? p (t ++ rest) = (afterSome? p t).map (· ++ rest) := by
  cases t with
  | nil => simp at h
  | cons d t =>
    rw [List.cons_append, afterSome?, afterSome?]
    split
    next hd =>
      obtain ⟨c, hc, hp⟩ := h
      have hct : c ∈ t := (List.mem_cons.1 hc).resolve_left (by rintro rfl; rw [hd] at hp; cases hp)
      rw [dropWhile_append_of_mem ⟨c, hct, hp⟩]
      rfl
    next => rfl

/-- A run of a class is as long as it can be. -/
theorem head?_dropWhile_any (p : Char → Bool) (s : List Char) : (s.dropWhile p).head?.any p = false := by
  cases hs : s.dropWhile p with
  | nil => rfl
  | cons c t => simpa [hs] using List.head?_dropWhile_not p s

theorem dropWhile_of_head {p : Char → Bool} {t : List Char} (ht : t.head?.any p = false) :
    t.dropWhile p = t := by
  cases t with
  | nil => rfl
  | cons c t => exact List.dropWhile_cons_of_neg (by simpa using ht)

theorem takeWhile_of_head {α : Type} {p : α → Bool} {t : List α} (ht : t.head?.any p = false) :
    t.takeWhile p = [] := by
  cases t with
  | nil => rfl
  | cons c t => exact List.takeWhile_cons_of_neg (by simpa using ht)

theorem contains_iff_isInfix {w s : List Char} : contains w s = true ↔ w <:+: s := by
  induction s with
  | nil => simp [contains]
  | cons c s ih =>
    rw [contains, Bool.or_eq_true, ih, List.isPrefixOf_iff_prefix, List.infix_cons_iff]

/-- A text that is cut before a character is cut in one of its halves. -/
theorem cons_of_append_eq {c : Char} {y z p q : List Char} (h : y ++ c :: z = p ++ q) :
    (∃ p', p = y ++ c :: p' ∧ z = p' ++ q) ∨ ∃ q', q = q' ++ c :: z ∧ y = p ++ q' := by
  rcases List.append_eq_append_iff.1 h with ⟨w, hp, hw⟩ | ⟨w, hy, hq⟩
  · cases w with
    | nil => exact .inr ⟨[], hw.symm, by simpa using hp.symm⟩
    | cons d w =>
      obtain ⟨rfl, rfl⟩ := List.cons.inj hw
      exact .inl ⟨w, hp, rfl⟩
  · exact .inr ⟨w, hq, hy⟩

theorem cons_of_append_notMem {c : Char} {y z p q : List Char} (hp : c ∉ p) (h : y ++ c :: z = p ++ q) :
    ∃ q', q = q' ++ c :: z ∧ y = p ++ q' := by
  rcases cons_of_append_eq h with ⟨p', rfl, -⟩ | hlater
  · exact absurd (by simp) hp
  · exact hlater

/-- Every answer of a recogniser is one at some place. -/
theorem exists_of_mem_matchesFrom {α : Type} {f : Option Char → List Char → Option (α × List Char)}
    {n : Nat} {before : Option Char} {s : List Char} {a : α} (h : a ∈ matchesFrom f n before s) :
    ∃ before s rest, f before s = some (a, rest) := by
  fun_induction matchesFrom f n before s with
  | case1 => cases h
  | case2 n before c s ih => exact ih h
  | case3 before c s b rest hf ih =>
    rcases List.mem_cons.1 h with rfl | h
    · exact ⟨before, c :: s, rest, hf⟩
    · exact ih h
  | case4 before c s hf ih => exact ih h

theorem getLast?_cons_or (c : Char) (s : List Char) (before : Option Char) :
    (c :: s).getLast?.or before = s.getLast?.or (some c) := by
  rw [List.getLast?_cons]
  cases s.getLast? <;> rfl

/-- After what a recogniser has taken, the scan goes on. -/
theorem matchesFrom_taken {α : Type} (f : Option Char → List Char → Option (α × List Char))
    (taken s : List Char) (before : Option Char) : matchesFrom f taken.length before (taken ++ s) =
      matchesFrom f 0 (taken.getLast?.or before) s := by
  induction taken generalizing before with
  | nil => rfl
  | cons c taken ih =>
    rw [List.length_cons, List.cons_append, matchesFrom, ih, getLast?_cons_or]

/-- A scan takes what its recogniser takes and goes on after it. -/
theorem matchesFrom_of_some {α : Type} {f : Option Char → List Char → Option (α × List Char)}
    {before : Option Char} {taken rest : List Char} {a : α} (htaken : taken ≠ [])
    (h : f before (taken ++ rest) = some (a, rest)) : matchesFrom f 0 before (taken ++ rest) =
      a :: matchesFrom f 0 (taken.getLast?.or before) rest := by
  obtain ⟨c, taken, rfl⟩ := List.exists_cons_of_ne_nil htaken
  have hlength : (taken ++ rest).length - rest.length = taken.length := by simp
  rw [List.cons_append] at h ⊢
  rw [matchesFrom, h]
  dsimp only
  rw [hlength, matchesFrom_taken, getLast?_cons_or]

theorem matchesFrom_of_none {α : Type} {f : Option Char → List Char → Option (α × List Char)}
    {pre s : List Char} {c : Char} (h : f pre.getLast? (c :: s) = none) :
    matchesFrom f 0 pre.getLast? (c :: s) = matchesFrom f 0 (pre ++ [c]).getLast? s := by
  rw [matchesFrom, h, List.getLast?_concat]

/-- Every answer of a scan that begins after some text is one at a place after that text. -/
theorem exists_place_of_mem_matchesFrom {α : Type}
    {f : Option Char → List Char → Option (α × List Char)} {n : Nat} {pre s : List Char} {a : α}
    (h : a ∈ matchesFrom f n pre.getLast? s) : ∃ pre' t rest, pre ++ s = pre' ++ t ∧
      pre.length ≤ pre'.length ∧ f pre'.getLast? t = some (a, rest) := by
  induction s generalizing n pre with
  | nil => cases n <;> cases h
  | cons c s ih =>
    have hlater : ∀ {m}, a ∈ matchesFrom f m (some c) s → ∃ pre' t rest, pre ++ c :: s = pre' ++ t ∧
        pre.length ≤ pre'.length ∧ f pre'.getLast? t = some (a, rest) := by
      intro m hm
      have hscan : a ∈ matchesFrom f m (pre ++ [c]).getLast? s := by simpa using hm
      obtain ⟨pre', t, rest, hs, hle, hf⟩ := ih hscan
      exact ⟨pre', t, rest, by simpa using hs, by simp at hle; omega, hf⟩
    cases n with
    | succ n => exact hlater h
    | zero =>
      rw [matchesFrom] at h
      split at h
      next b rest hf =>
        rcases List.mem_cons.1 h with rfl | h
        · exact ⟨pre, c :: s, rest, rfl, Nat.le_refl _, hf⟩
        · exact hlater h
      next => exact hlater h

section Finds

variable {α : Type} {f : Option Char → List Char → Option (α × List Char)}

/-- Where a recogniser decides on every place of a text by the text alone, a scan of the text and what
follows it is a scan of both. -/
theorem matchesFrom_append {a rest : List Char} (h : ∀ before t, t <:+ a → t ≠ [] →
      f before (t ++ rest) = (f before t).map fun x => (x.1, x.2 ++ rest))
    {n : Nat} (hn : n ≤ a.length) (before : Option Char) : matchesFrom f n before (a ++ rest) =
      matchesFrom f n before a ++ matchesFrom f 0 (a.getLast?.or before) rest := by
  induction a generalizing n before with
  | nil =>
    obtain rfl : n = 0 := Nat.le_zero.1 hn
    rfl
  | cons c a ih =>
    have ih := @ih fun b t ht => h b t (ht.trans (List.suffix_cons c a))
    rw [getLast?_cons_or]
    cases n with
    | succ n => exact ih (Nat.le_of_succ_le_succ hn) (some c)
    | zero =>
      have hc := h before (c :: a) List.suffix_rfl nofun
      rw [List.cons_append] at hc ⊢
      rw [matchesFrom, hc, matchesFrom]
      cases hf : f before (c :: a) with
      | none => exact ih (Nat.zero_le _) (some c)
      | some x =>
        have hlength : (a ++ rest).length - (x.2 ++ rest).length = a.length - x.2.length := by
          rw [List.length_append, List.length_append]
          omega
        simp only [Option.map_some, hlength, ih (Nat.sub_le ..) (some c), List.cons_append]

/-- A scan finds some answers in a text, whatever stands before and behind it. -/
def Finds (f : Option Char → List Char → Option (α × List Char)) (a : List Char) (found : List α) : Prop :=
  ∀ before rest, matchesFrom f 0 before (a ++ rest) =
    found ++ matchesFrom f 0 (a.getLast?.or before) rest

theorem Finds.nil : Finds f [] [] := fun _ _ => rfl

theorem Finds.append {a b : List Char} {x y : List α} (ha : Finds f a x) (hb : Finds f b y) :
    Finds f (a ++ b) (x ++ y) := by
  intro before rest
  rw [List.append_assoc, ha, hb, List.append_assoc, List.getLast?_append, Option.or_assoc]

theorem Finds.flatMap {β : Type} {xs : List β} {text : β → List Char} {found : β → List α}
    (h : ∀ x ∈ xs, Finds f (text x) (found x)) : Finds f (xs.flatMap text) (xs.flatMap found) := by
  induction xs with
  | nil => exact .nil
  | cons x xs ih =>
    rw [List.flatMap_cons, List.flatMap_cons]
    exact (h x List.mem_cons_self).append (ih fun y hy => h y (List.mem_cons_of_mem x hy))

theorem Finds.allMatches_eq {a : List Char} {found : List α} (h : Finds f a found) :
    allMatches f a = found := by
  have hnil : ∀ before, matchesFrom f 0 before [] = [] := fun before => rfl
  have hall := h none []
  rwa [hnil, List.append_nil, List.append_nil] at hall

end Finds

end Solwright.Text
