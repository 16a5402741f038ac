import Solwright.Proofs.Source.Placement

/-! Where a source defines functions. Text that does not end inside a definition can be scanned on its
own, and so can a name, in which no definition can begin. -/

namespace Solwright.Source

open Solwright.Text

/-- A character that stands neither in a word nor between words. -/
def isMark (c : Char) : Bool :=
  !isIdentChar c && !isBlank c

/-- A text that tells whether a definition begins with it, whatever follows. -/
def isDecided (t : List Char) : Bool :=
  t.any isMark || !("function".toList.isPrefixOf t || t.isPrefixOf "function".toList)

/-- A text that can be scanned for functions on its own. It does not begin as a definition does, so that
it does not matter either what stands before it. -/
def isSettled (s : List Char) : Bool :=
  s.head? != some 'f' && go s
where
  go : List Char → Bool
    | [] => true
    | c :: s => isDecided (c :: s) && go s

theorem isDecided_of_go {a t : List Char} (h : isSettled.go a = true) (ht : t <:+ a) (hne : t ≠ []) :
    isDecided t = true := by
  induction a with
  | nil => exact absurd (List.suffix_nil.1 ht) hne
  | cons c a ih =>
    rw [isSettled.go, Bool.and_eq_true] at h
    rcases List.suffix_cons_iff.1 ht with rfl | ht
    · exact h.1
    · exact ih h.2 ht

theorem isMark_iff {c : Char} : isMark c = true ↔ isIdentChar c = false ∧ isBlank c = false := by
  simp [isMark]

theorem isIdentChar_function : ∀ c ∈ "function".toList, isIdentChar c = true := by
  have hall : "function".toList.all isIdentChar = true := by decide
  exact List.all_eq_true.1 hall

theorem identifier?_append_of_mem {t : List Char} (h : ∃ c ∈ t, isIdentChar c = false)
    (rest : List Char) : identifier? (t ++ rest) = (identifier? t).map fun x => (x.1, x.2 ++ rest) := by
  cases t with
  | nil => simp at h
  | cons d t =>
    rw [List.cons_append, identifier?, identifier?]
    split
    next hd =>
      obtain ⟨c, hc, hp⟩ := h
      have hct : c ∈ t := (List.mem_cons.1 hc).resolve_left (by
        rintro rfl
        rw [isIdentStart, Bool.or_eq_true] at hd
        rw [isIdentChar, Bool.or_eq_false_iff, Char.isAlphanum, Bool.or_eq_false_iff] at hp
        rcases hd with hd | hd
        · rw [hp.1.1] at hd
          cases hd
        · rw [hp.2] at hd
          cases hd)
      have htake : (t ++ rest).takeWhile isIdentChar = t.takeWhile isIdentChar := by
        rw [List.takeWhile_append, if_neg]
        intro hlength
        have hall := List.takeWhile_eq_self_iff.1
          ((List.takeWhile_prefix isIdentChar).eq_of_length hlength)
        rw [hall c hct] at hp
        cases hp
      rw [htake, dropWhile_append_of_mem ⟨c, hct, hp⟩]
      rfl
    next => rfl

/-- A mark that a text has is still there after white space at its start has been taken. -/
theorem mem_of_afterSome? {s t : List Char} (h : afterSome? isBlank s = some t) {c : Char} (hc : c ∈ s)
    (hblank : isBlank c = false) : c ∈ t := by
  obtain ⟨gap, hgap, rfl⟩ := isGap_of_afterSome? h
  refine (List.mem_append.1 hc).resolve_left fun hc => ?_
  rw [hgap.2 c hc] at hblank
  cases hblank

/-- A mark that a text has is still there after an identifier at its start has been taken. -/
theorem mem_of_identifier? {s name t : List Char} (h : identifier? s = some (name, t)) {c : Char}
    (hc : c ∈ s) (hident : isIdentChar c = false) : c ∈ t := by
  rw [(whole_of_identifier? h).1] at hc
  refine (List.mem_append.1 hc).resolve_left fun hc => ?_
  rw [isIdentChar_of_identifier? h c hc] at hident
  cases hident

/-- A definition up to its opening parenthesis. -/
theorem function?_eq (before : Option Char) (s : List Char) : function? before s =
    if before.any isWord then none else
    ((after? "function".toList s).bind fun s => (afterSome? isBlank s).bind identifier?).bind fun x =>
      (after? ['('] (x.2.dropWhile isBlank)).map fun rest => (x.1, rest) := by
  unfold function?
  split
  · rfl
  · cases (after? "function".toList s).bind fun s => (afterSome? isBlank s).bind identifier? <;> rfl

/-- Where a text tells whether a definition begins with it, what follows does not matter. -/
theorem function?_append {t : List Char} (h : isDecided t = true) (before : Option Char)
    (rest : List Char) :
    function? before (t ++ rest) = (function? before t).map fun x => (x.1, x.2 ++ rest) := by
  rw [function?_eq, function?_eq]
  split
  · rfl
  rw [isDecided, Bool.or_eq_true] at h
  rcases h with h | h
  · obtain ⟨c, hc, hmark⟩ := List.any_eq_true.1 h
    obtain ⟨hident, hblank⟩ := isMark_iff.1 hmark
    have hword : c ∉ "function".toList := fun hc => by
      rw [isIdentChar_function c hc] at hident
      cases hident
    rw [after?_append_of_apart (fun ht => absurd (ht.subset hc) hword)]
    -- the mark is in what is left after each part of a definition but the last
    rcases hafter : after? "function".toList t with _ | u
    · rfl
    have hcu : c ∈ u := by
      rw [after?_eq_some.1 hafter] at hc
      exact (List.mem_append.1 hc).resolve_left hword
    rw [Option.map_some, Option.bind_some, Option.bind_some, afterSome?_append ⟨c, hcu, hblank⟩]
    rcases hgap : afterSome? isBlank u with _ | v
    · rfl
    have hcv := mem_of_afterSome? hgap hcu hblank
    rw [Option.map_some, Option.bind_some, Option.bind_some, identifier?_append_of_mem ⟨c, hcv, hident⟩]
    rcases hname : identifier? v with _ | ⟨name, w⟩
    · rfl
    have hcw := mem_dropWhile (mem_of_identifier? hname hcv hident) hblank
    rw [Option.map_some, Option.bind_some, Option.bind_some,
      dropWhile_append_of_mem ⟨c, mem_of_identifier? hname hcv hident, hblank⟩,
      after?_append_of_apart fun ht => ?_]
    · simp only [Option.map_map, Function.comp_def]
    · cases hrest : w.dropWhile isBlank with
      | nil => rw [hrest] at hcw; cases hcw
      | cons d w =>
        rw [hrest] at ht
        obtain ⟨rfl, hw⟩ := List.cons_prefix_cons.1 ht
        rw [List.prefix_nil.1 hw]
  · simp only [Bool.not_eq_true', Bool.or_eq_false_iff] at h
    have hnone : after? "function".toList t = none := by
      rw [Option.eq_none_iff_forall_ne_some]
      rintro rest' hrest
      rw [after?_eq_some.1 hrest] at h
      exact absurd (List.isPrefixOf_iff_prefix.2 (List.prefix_append _ _)) (by rw [h.1]; decide)
    rw [after?_append_of_apart (fun ht => ?_), hnone]
    · rfl
    · rw [List.isPrefixOf_iff_prefix.2 ht] at h
      cases h.2

/-- A definition begins with its word. -/
theorem function?_of_head {s : List Char} (h : s.head? ≠ some 'f') (before : Option Char) :
    function? before s = none := by
  have hword : "function".toList = 'f' :: "unction".toList := by decide
  cases s with
  | nil => rw [function?_eq, hword]; exact ite_self none
  | cons c s =>
    rw [function?_eq, hword, after?_of_ne fun hc => h (by rw [hc]; rfl)]
    exact ite_self none

/-- A settled text is scanned on its own. -/
theorem finds_of_isSettled {a : List Char} (h : isSettled a = true) : Finds function? a (functions a) := by
  rw [isSettled, Bool.and_eq_true, bne_iff_ne] at h
  intro before rest
  have hbefore : matchesFrom function? 0 before a = functions a := by
    cases a with
    | nil => rfl
    | cons c a =>
      rw [functions, allMatches, matchesFrom, matchesFrom, function?_of_head h.1, function?_of_head h.1]
  rw [← hbefore]
  refine matchesFrom_append (fun before t ht hne => ?_) (Nat.zero_le _) before
  exact function?_append (isDecided_of_go h.2 ht hne) before rest

/-- No definition begins inside a word, or with one that begins differently. -/
theorem matchesFrom_word {s : List Char} (hs : ∀ c ∈ s, isWord c = true) {before : Option Char}
    (h : before.any isWord = true ∨ s.head? ≠ some 'f') (rest : List Char) :
    matchesFrom function? 0 before (s ++ rest) = matchesFrom function? 0 (s.getLast?.or before) rest := by
  induction s generalizing before with
  | nil => rfl
  | cons c s ih =>
    have hnone : function? before (c :: (s ++ rest)) = none := by
      rcases h with h | h
      · rw [function?_eq, if_pos h]
      · exact function?_of_head (s := c :: (s ++ rest)) h before
    rw [List.cons_append, matchesFrom, hnone, getLast?_cons_or]
    exact ih (fun d hd => hs d (List.mem_cons_of_mem c hd)) (.inl (hs c List.mem_cons_self))

theorem isWord_of_isAlphanum {c : Char} (h : c.isAlphanum = true) : isWord c = true := by
  have hascii : c.toNat < 0x80 := by
    rw [Char.isAlphanum, Bool.or_eq_true, isAlpha_iff, isUpper_iff, isLower_iff] at h
    rcases h with h | h
    · omega
    · rw [Char.isDigit, Bool.and_eq_true, decide_eq_true_eq, decide_eq_true_eq] at h
      have hle : c.toNat ≤ 57 := UInt32.le_iff_toNat_le.1 h.2
      omega
  rw [isWord, if_pos hascii, h, Bool.true_or]

/-- A word that does not begin as a definition does is passed over. -/
theorem finds_word {s : List Char} (hs : ∀ c ∈ s, isWord c = true) (hhead : s.head? ≠ some 'f') :
    Finds function? s [] :=
  fun _ rest => matchesFrom_word hs (.inr hhead) rest

end Solwright.Source
