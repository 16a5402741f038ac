import Mathlib.Data.List.TakeWhile
import Mathlib.Tactic.SplitIfs
import Solwright.Proofs.Text.Ascii
import Solwright.Proofs.Text.Scan
import Solwright.Source.Declaration

/-! Where a source can declare a contract. A declaration stands at the start of a line, blanks apart,
and begins with one of two letters; a text none of whose lines begins with one of them is passed over. -/

namespace Solwright.Source

open Solwright.Text

/-- Reads a text in which no line begins with a letter that a declaration can begin with, blanks apart.
The state is whether a line has begun and only blanks were read since. -/
def settle : Bool → List Char → Option Bool
  | fresh, [] => some fresh
  | true, c :: s =>
    if isBlank c then settle true s else if c = 'a' ∨ c = 'c' then none else settle false s
  | false, c :: s => settle (c == '\n') s

theorem settle_append (fresh : Bool) (a b : List Char) :
    settle fresh (a ++ b) = (settle fresh a).bind fun fresh => settle fresh b := by
  induction a generalizing fresh with
  | nil => cases fresh <;> rfl
  | cons c a ih =>
    cases fresh with
    | true =>
      simp only [List.cons_append, settle]
      split_ifs <;> simp [ih]
    | false => exact ih _

/-- The first character of a line that is not blank, where the text comes to one. -/
theorem dropWhile_of_settle {a : List Char} (h : settle true a = some false) (rest : List Char) :
    ∃ c s, (a ++ rest).dropWhile isBlank = c :: s ∧ c ≠ 'a' ∧ c ≠ 'c' := by
  induction a with
  | nil => simp [settle] at h
  | cons c a ih =>
    rw [settle] at h
    split at h
    next hb =>
      obtain ⟨d, s, hs, hd⟩ := ih h
      exact ⟨d, s, by rw [List.cons_append, List.dropWhile_cons_of_pos hb, hs], hd⟩
    next hb =>
      split at h
      · cases h
      next hc =>
        refine ⟨c, a ++ rest, ?_, fun h => hc (.inl h), fun h => hc (.inr h)⟩
        rw [List.cons_append, List.dropWhile_cons_of_neg hb]

theorem declaration?_of_head {before : Option Char} {s t : List Char} {c : Char}
    (hs : s.dropWhile isBlank = c :: t) (ha : c ≠ 'a') (hc : c ≠ 'c') : declaration? before s = none := by
  have habstract : "abstract".toList = 'a' :: "bstract".toList := by decide
  have hcontract : "contract".toList = 'c' :: "ontract".toList := by decide
  unfold declaration? afterOptional
  rw [hs, habstract, after?_of_ne (Ne.symm ha), hcontract, Option.bind_none, Option.getD_none,
    after?_of_ne (Ne.symm hc)]
  exact ite_self none

/-- A text is passed over up to the end of a line that it has begun. -/
theorem declarations_pass {a : List Char} {fresh : Bool} (before : Option Char)
    (hfresh : atLineStart before = true → fresh = true) (h : settle fresh a = some false)
    (rest : List Char) : ∃ before', atLineStart before' = false ∧
      matchesFrom declaration? 0 before (a ++ rest) = matchesFrom declaration? 0 before' rest := by
  induction a generalizing fresh before with
  | nil =>
    cases fresh with
    | true => simp [settle] at h
    | false =>
      refine ⟨before, ?_, rfl⟩
      cases hb : atLineStart before with
      | true => cases hfresh hb
      | false => rfl
  | cons c a ih =>
    have hnone : declaration? before (c :: a ++ rest) = none := by
      cases hb : atLineStart before with
      | false => simp [declaration?, hb]
      | true =>
        obtain rfl := hfresh hb
        obtain ⟨d, s, hs, ha, hc⟩ := dropWhile_of_settle h rest
        exact declaration?_of_head hs ha hc
    have hstep : matchesFrom declaration? 0 before (c :: a ++ rest) =
        matchesFrom declaration? 0 (some c) (a ++ rest) := by
      rw [List.cons_append] at hnone ⊢
      rw [matchesFrom, hnone]
    rw [hstep]
    cases fresh with
    | false => exact ih _ (by simp [atLineStart]) h
    | true =>
      rw [settle] at h
      split at h
      next hb => exact ih _ (fun _ => rfl) h
      next hb =>
        split at h
        · cases h
        next =>
          refine ih _ (fun hnl => ?_) h
          obtain rfl : c = '\n' := by simpa [atLineStart] using hnl
          exact absurd (by decide) hb

theorem isBlank_of_isIdentStart {c : Char} (h : isIdentStart c = true) : isBlank c = false := by
  simp only [isIdentStart, Bool.or_eq_true, beq_iff_eq, isAlpha_iff, isUpper_iff, isLower_iff] at h
  have hn : 65 ≤ c.toNat ∧ c.toNat ≤ 122 := by
    rcases h with (⟨h, h'⟩ | ⟨h, h'⟩) | rfl
    · omega
    · omega
    · decide
  simp [isBlank]
  omega

theorem identifier?_append {name rest : List Char} (hstart : name.head?.any isIdentStart = true)
    (hname : ∀ c ∈ name, isIdentChar c = true) (hrest : rest.head?.any isIdentChar = false) :
    identifier? (name ++ rest) = some (name, rest) := by
  cases name with
  | nil => cases hstart
  | cons c s =>
    have hs : ∀ d ∈ s, isIdentChar d = true := fun d hd => hname d (List.mem_cons_of_mem c hd)
    rw [List.cons_append, identifier?, if_pos (show isIdentStart c = true from hstart),
      List.takeWhile_append_of_pos hs,
      List.dropWhile_append_of_pos hs]
    cases rest with
    | nil => simp
    | cons d rest =>
      have hd : isIdentChar d = false := hrest
      simp [hd]

/-- A contract that is declared on a line of its own is found with its name. -/
theorem declarations_head {before : Option Char} (hbefore : atLineStart before = false)
    {name rest : List Char} (hstart : name.head?.any isIdentStart = true)
    (hname : ∀ c ∈ name, isIdentChar c = true) (hrest : rest.head?.any isIdentChar = false) :
    (matchesFrom declaration? 0 before ('\n' :: ("contract".toList ++ ' ' :: (name ++ rest)))).head? =
      some name := by
  have hskip : (name ++ rest).dropWhile isBlank = name ++ rest := by
    cases name with
    | nil => cases hstart
    | cons c s => simp [isBlank_of_isIdentStart hstart]
  have habstract : "abstract".toList = 'a' :: "bstract".toList := by decide
  have hcontract : "contract".toList = 'c' :: "ontract".toList := by decide
  have hfound : declaration? (some '\n') ("contract".toList ++ ' ' :: (name ++ rest)) =
      some (name, rest) := by
    have hkeep : ("contract".toList ++ ' ' :: (name ++ rest)).dropWhile isBlank =
        "contract".toList ++ ' ' :: (name ++ rest) := by
      rw [hcontract]
      exact List.dropWhile_cons_of_neg (by decide)
    have hword : afterOptional "abstract".toList ("contract".toList ++ ' ' :: (name ++ rest)) =
        "contract".toList ++ ' ' :: (name ++ rest) := by
      rw [afterOptional, hcontract, habstract, List.cons_append, after?_of_ne (by decide)]
      rfl
    have hblank : afterSome? isBlank (' ' :: (name ++ rest)) = some (name ++ rest) := by
      rw [afterSome?, if_pos (by decide), hskip]
    rw [declaration?, if_pos (by decide), hkeep, hword, after?_append, Option.bind_some, hblank,
      Option.bind_some, identifier?_append hstart hname hrest]
  have hnone : ∀ s, declaration? before s = none := fun s => by simp [declaration?, hbefore]
  rw [matchesFrom, hnone]
  rw [hcontract, List.cons_append] at hfound ⊢
  rw [matchesFrom, hfound]
  rfl

theorem isIdentChar_of_identifier? {s name rest : List Char} (h : identifier? s = some (name, rest)) :
    ∀ c ∈ name, isIdentChar c = true := by
  cases s with
  | nil => cases h
  | cons c s =>
    rw [identifier?] at h
    split at h
    next hstart =>
      cases h
      intro d hd
      rcases List.mem_cons.1 hd with rfl | hd
      · simp only [isIdentStart, Bool.or_eq_true] at hstart
        rw [isIdentChar, Char.isAlphanum, Bool.or_eq_true, Bool.or_eq_true]
        exact hstart.imp_left .inl
      · exact List.mem_takeWhile_imp hd
    next => cases h

theorem isIdentChar_of_declaration? {before : Option Char} {s name rest : List Char}
    (h : declaration? before s = some (name, rest)) : ∀ c ∈ name, isIdentChar c = true := by
  unfold declaration? at h
  split at h
  next =>
    obtain ⟨t, -, h⟩ := Option.bind_eq_some_iff.1 h
    obtain ⟨u, -, h⟩ := Option.bind_eq_some_iff.1 h
    exact isIdentChar_of_identifier? h
  next => cases h

/-- A declared name has the characters of an identifier. -/
theorem isIdentChar_of_firstDeclared? {source name : String} (h : firstDeclared? source = some name) :
    ∀ c ∈ name.toList, isIdentChar c = true := by
  obtain ⟨s, hs, rfl⟩ := Option.map_eq_some_iff.1 h
  obtain ⟨before, t, rest, hf⟩ := exists_of_mem_matchesFrom (List.mem_of_mem_head? hs)
  rw [String.toList_ofList]
  exact isIdentChar_of_declaration? hf

end Solwright.Source
