import Mathlib.Data.List.TakeWhile
import Mathlib.Tactic.SplitIfs
import Solwright.Proofs.Source.Declared
import Solwright.Source.Import

/-! The contract declarations of a text, told by the word that begins them and not by lines, against
the scan that tells them by lines. A line inside a literal that goes on over a line end is all that the
scan can mistake for a declaration; where there is none, it finds the declarations in their order. -/

namespace Solwright.Source

open Solwright.Text

/-- What a text has come to: code, or a literal that a quote has opened. A backslash takes the next
character with it, a line end of two characters as a whole. -/
inductive Place
  | code
  | literal (quote : Char)
  | escape (quote : Char)
  | escapedReturn (quote : Char)
  deriving DecidableEq

/-- A literal ends with its quote. One that is still open at a line end is none. -/
def Place.inLiteral (quote c : Char) : Place :=
  if c = '\\' then .escape quote
  else if c = quote ∨ c = '\n' ∨ c = '\r' then .code
  else .literal quote

def Place.next : Place → Char → Place
  | .code, c => if isQuote c then .literal c else .code
  | .literal quote, c => inLiteral quote c
  | .escape quote, c => if c = '\r' then .escapedReturn quote else .literal quote
  | .escapedReturn quote, c => if c = '\n' then .literal quote else inLiteral quote c

/-- What a text that begins as code comes to. -/
def placeAfter (s : List Char) : Place := s.foldl Place.next .code

/-- May stand in a name of the language. -/
def isNameChar (c : Char) : Bool :=
  isIdentChar c || c == '$'

/-- White space between two words. -/
def IsGap (s : List Char) : Prop := s ≠ [] ∧ ∀ c ∈ s, isBlank c = true

/-- A contract declaration of a text: outside of literals the word that begins one, white space, and
all that can be part of a name. -/
structure Declares (s before name after : List Char) : Prop where
  text : ∃ gap, IsGap gap ∧ s = before ++ ("contract".toList ++ (gap ++ (name ++ after)))
  code : placeAfter before = .code
  apart : before.getLast?.any isNameChar = false
  named : name ≠ [] ∧ ∀ c ∈ name, isNameChar c = true
  whole : after.head?.any isNameChar = false

/-- What may stand on a line in front of the word: white space, and the word that makes a contract
abstract. -/
inductive IsLead : List Char → Prop
  | plain {blanks : List Char} : (∀ c ∈ blanks, isBlank c = true) → IsLead blanks
  | abstract {blanks gap : List Char} : (∀ c ∈ blanks, isBlank c = true) → IsGap gap →
      IsLead (blanks ++ ("abstract".toList ++ gap))

def BeginsLine (before : List Char) : Prop :=
  ∃ a l, before = a ++ l ∧ atLineStart a.getLast? = true ∧ IsLead l

/-- A name made of letters, digits and underscores. The words of a declaration are none. -/
structure IsContractName (name : List Char) : Prop where
  start : name.head?.any isIdentStart = true
  chars : ∀ c ∈ name, isIdentChar c = true
  free : name ≠ "contract".toList ∧ name ≠ "abstract".toList

/-- Every declaration of a text begins a line and has a name. -/
def IsLined (s : List Char) : Prop :=
  ∀ before name after, Declares s before name after → BeginsLine before ∧ IsContractName name

/-- No line that begins inside a literal begins like a declaration. -/
def HasPlainLiterals (s : List Char) : Prop :=
  ∀ a l gap rest, s = a ++ (l ++ ("contract".toList ++ (gap ++ rest))) → a.getLast? = some '\n' →
    IsLead l → IsGap gap → placeAfter a = .code

def IsDeclared (s : List Char) (name : RawText) : Prop :=
  ∃ t before after, name = .formed t ∧ Declares s before t.toList after

/-- The last declaration of a text among those of some contracts is that of a name. -/
def IsLastDeclared (s : List Char) (compiled : List RawText) (name : RawText) : Prop :=
  name ∈ compiled ∧ ∃ t before after, name = .formed t ∧ Declares s before t.toList after ∧
    ∀ before' name' after', Declares s before' name' after' → .formed (String.ofList name') ∈ compiled →
      before'.length ≤ before.length

theorem IsLastDeclared.perm {s : List Char} {compiled compiled' : List RawText} {last : RawText}
    (h : IsLastDeclared s compiled last) (hperm : compiled'.Perm compiled) :
    IsLastDeclared s compiled' last := by
  obtain ⟨hmem, t, before, after, hname, hd, hlatest⟩ := h
  exact ⟨hperm.mem_iff.2 hmem, t, before, after, hname, hd,
    fun b n a hb hn => hlatest b n a hb (hperm.mem_iff.1 hn)⟩

theorem isQuote_of_isBlank {c : Char} (h : isBlank c = true) : isQuote c = false := by
  by_contra hq
  have hq : c = '"' ∨ c = '\'' := by simpa [isQuote, -not_or, Classical.or_iff_not_imp_left] using hq
  rcases hq with rfl | rfl <;> exact absurd h (by decide)

theorem placeAfter_append_of_code {a t : List Char} (ha : placeAfter a = .code)
    (ht : ∀ c ∈ t, isQuote c = false) : placeAfter (a ++ t) = .code := by
  rw [placeAfter, List.foldl_append, ← placeAfter, ha]
  induction t with
  | nil => rfl
  | cons c t ih =>
    rw [List.foldl_cons, Place.next, if_neg (by simp [ht c List.mem_cons_self])]
    exact ih fun d hd => ht d (List.mem_cons_of_mem c hd)

theorem IsLead.isQuote {l : List Char} (hl : IsLead l) : ∀ c ∈ l, isQuote c = false := by
  cases hl with
  | plain hblanks => exact fun c hc => isQuote_of_isBlank (hblanks c hc)
  | abstract hblanks hgap =>
    have hword : "abstract".toList.any Source.isQuote = false := by decide
    intro c hc
    rcases List.mem_append.1 hc with hc | hc
    · exact isQuote_of_isBlank (hblanks c hc)
    rcases List.mem_append.1 hc with hc | hc
    · exact Bool.eq_false_iff.2 (List.any_eq_false.1 hword c hc)
    · exact isQuote_of_isBlank (hgap.2 c hc)

/-- White space is read up to what is none. -/
theorem IsGap.afterSome? {gap t : List Char} (hg : IsGap gap) (ht : t.head?.any isBlank = false) :
    afterSome? isBlank (gap ++ t) = some t := by
  obtain ⟨c, gap, rfl⟩ := List.exists_cons_of_ne_nil hg.1
  have hc : isBlank c = true := hg.2 c List.mem_cons_self
  have hgap : ∀ d ∈ gap, isBlank d = true := fun d hd => hg.2 d (List.mem_cons_of_mem c hd)
  rw [List.cons_append, Text.afterSome?, if_pos hc, List.dropWhile_append_of_pos hgap,
    dropWhile_of_head ht]

theorem head_contract (t : List Char) : "contract".toList ++ t = 'c' :: ("ontract".toList ++ t) := rfl

theorem head_abstract (t : List Char) : "abstract".toList ++ t = 'a' :: ("bstract".toList ++ t) := rfl

theorem afterOptional_contract (t : List Char) :
    afterOptional "abstract".toList ("contract".toList ++ t) = "contract".toList ++ t := by
  have hword : "abstract".toList = 'a' :: "bstract".toList := rfl
  rw [afterOptional, head_contract, hword, after?_of_ne (by decide)]
  rfl

/-- What the scan passes over before the word that begins a declaration. -/
theorem IsLead.skip {l : List Char} (hl : IsLead l) (t : List Char) :
    afterOptional "abstract".toList ((l ++ ("contract".toList ++ t)).dropWhile isBlank) =
      "contract".toList ++ t := by
  cases hl with
  | plain hblanks =>
    rw [List.dropWhile_append_of_pos hblanks, head_contract, List.dropWhile_cons_of_neg (by decide),
      ← head_contract, afterOptional_contract]
  | abstract hblanks hgap =>
    rw [List.append_assoc, List.dropWhile_append_of_pos hblanks, List.append_assoc, head_abstract,
      List.dropWhile_cons_of_neg (by decide), ← head_abstract, afterOptional, after?_append,
      Option.bind_some, hgap.afterSome? (by rfl)]
    rfl

theorem isBlank_of_isIdentChar {c : Char} (h : isIdentChar c = true) : isBlank c = false := by
  simp only [isIdentChar, Char.isAlphanum, Bool.or_eq_true] at h
  rcases h with (h | h) | h
  · exact isBlank_of_isIdentStart (by simp [isIdentStart, h])
  · have hn : 48 ≤ c.toNat ∧ c.toNat ≤ 57 := by
      simpa [Char.isDigit, UInt32.le_iff_toNat_le] using h
    simp [isBlank]
    omega
  · exact isBlank_of_isIdentStart (by simp [isIdentStart, h])

theorem head_not_isBlank {name rest : List Char} (hstart : name.head?.any isIdentStart = true) :
    (name ++ rest).head?.any isBlank = false := by
  cases name with
  | nil => cases hstart
  | cons c name => exact isBlank_of_isIdentStart hstart

/-- A declaration is found where its line begins. -/
theorem declaration?_of_lead {before : Option Char} {l gap name rest : List Char}
    (hbefore : atLineStart before = true) (hl : IsLead l) (hg : IsGap gap)
    (hstart : name.head?.any isIdentStart = true) (hname : ∀ c ∈ name, isIdentChar c = true)
    (hrest : rest.head?.any isIdentChar = false) :
    declaration? before (l ++ ("contract".toList ++ (gap ++ (name ++ rest)))) = some (name, rest) := by
  rw [declaration?, if_pos hbefore, hl.skip, after?_append, Option.bind_some,
    hg.afterSome? (head_not_isBlank hstart), Option.bind_some, identifier?_append hstart hname hrest]

theorem isGap_of_afterSome? {s t : List Char} (h : afterSome? isBlank s = some t) :
    ∃ gap, IsGap gap ∧ s = gap ++ t := by
  cases s with
  | nil => cases h
  | cons c s =>
    rw [afterSome?] at h
    split at h
    next hc =>
      cases h
      refine ⟨c :: s.takeWhile isBlank, ⟨List.cons_ne_nil c _, fun d hd => ?_⟩, ?_⟩
      · rcases List.mem_cons.1 hd with rfl | hd
        · exact hc
        · exact List.mem_takeWhile_imp hd
      · rw [List.cons_append, List.takeWhile_append_dropWhile]
    next => cases h

theorem isLead_of_afterOptional {s t : List Char}
    (h : afterOptional "abstract".toList (s.dropWhile isBlank) = t) : ∃ l, IsLead l ∧ s = l ++ t := by
  have hblanks : ∀ c ∈ s.takeWhile isBlank, isBlank c = true := fun c hc => List.mem_takeWhile_imp hc
  have hs := (List.takeWhile_append_dropWhile (p := isBlank) (l := s)).symm
  unfold afterOptional at h
  cases hopt : (after? "abstract".toList (s.dropWhile isBlank)).bind (afterSome? isBlank) with
  | none =>
    rw [hopt, Option.getD_none] at h
    exact ⟨s.takeWhile isBlank, .plain hblanks, by rw [← h]; exact hs⟩
  | some u =>
    rw [hopt, Option.getD_some] at h
    obtain ⟨w, hw, hu⟩ := Option.bind_eq_some_iff.1 hopt
    obtain ⟨gap, hgap, rfl⟩ := isGap_of_afterSome? hu
    rw [after?_eq_some] at hw
    refine ⟨_, .abstract hblanks hgap, hs.trans ?_⟩
    rw [hw, h, List.append_assoc, List.append_assoc]

/-- What was read as an identifier begins as one and is as long as it can be. -/
theorem whole_of_identifier? {s name rest : List Char} (h : identifier? s = some (name, rest)) :
    s = name ++ rest ∧ name.head?.any isIdentStart = true ∧ rest.head?.any isIdentChar = false := by
  cases s with
  | nil => cases h
  | cons c s =>
    rw [identifier?] at h
    split at h
    next hc =>
      cases h
      refine ⟨?_, hc, ?_⟩
      · rw [List.cons_append, List.takeWhile_append_dropWhile]
      · exact head?_dropWhile_any isIdentChar s
    next => cases h

/-- All that the scan takes for a declaration. -/
theorem declaration?_eq_some {before : Option Char} {s name rest : List Char}
    (h : declaration? before s = some (name, rest)) : atLineStart before = true ∧
      ∃ l gap, IsLead l ∧ IsGap gap ∧ s = l ++ ("contract".toList ++ (gap ++ (name ++ rest))) ∧
        identifier? (name ++ rest) = some (name, rest) := by
  unfold declaration? at h
  split at h
  next hbefore =>
    obtain ⟨t, ht, h⟩ := Option.bind_eq_some_iff.1 h
    obtain ⟨u, hu, h⟩ := Option.bind_eq_some_iff.1 h
    obtain ⟨l, hl, hs⟩ := isLead_of_afterOptional (s := s) rfl
    obtain ⟨gap, hgap, htu⟩ := isGap_of_afterSome? hu
    have hname : u = name ++ rest := (whole_of_identifier? h).1
    rw [after?_eq_some] at ht
    refine ⟨hbefore, l, gap, hl, hgap, ?_, hname ▸ h⟩
    rw [← hname, ← htu, ← ht]
    exact hs
  next => cases h

/-- What follows a line end in front of the word may itself stand there. -/
theorem IsLead.tail {y x : List Char} (h : IsLead (y ++ '\n' :: x)) : IsLead x := by
  generalize hl : y ++ '\n' :: x = l at h
  cases h with
  | plain hblanks =>
    exact .plain fun c hc => hblanks c (by rw [← hl]; simp [hc])
  | @abstract blanks gap hblanks hgap =>
    rcases cons_of_append_eq hl with ⟨p, hp, rfl⟩ | ⟨q, hq, -⟩
    · exact .abstract (fun c hc => hblanks c (by rw [hp]; simp [hc])) hgap
    · obtain ⟨g, hg, -⟩ := cons_of_append_notMem (by decide) hq.symm
      exact .plain fun c hc => hgap.2 c (by rw [hg]; simp [hc])

theorem isBlank_of_isNameChar {c : Char} (h : isNameChar c = true) : isBlank c = false := by
  rw [isNameChar, Bool.or_eq_true, beq_iff_eq] at h
  rcases h with h | rfl
  · exact isBlank_of_isIdentChar h
  · decide

theorem any_isIdentChar {o : Option Char} (h : o.any isNameChar = false) : o.any isIdentChar = false := by
  cases o with
  | none => rfl
  | some c => exact (Bool.or_eq_false_iff.1 h).1

theorem IsLead.apart {u l : List Char} (hu : atLineStart u.getLast? = true) (hl : IsLead l) :
    (u ++ l).getLast?.any isNameChar = false := by
  have hblank : ∀ c, l.getLast? = some c → isBlank c = true := by
    intro c hc
    cases hl with
    | plain hblanks => exact hblanks c (List.mem_of_getLast? hc)
    | abstract hblanks hgap =>
      rw [← List.append_assoc, List.getLast?_append, List.getLast?_eq_some_getLast hgap.1] at hc
      cases hc
      exact hgap.2 _ (List.getLast_mem hgap.1)
  rw [List.getLast?_append]
  cases hc : l.getLast? with
  | some c =>
    rw [Option.some_or, Option.any_some, Bool.eq_false_iff]
    intro hname
    exact absurd (isBlank_of_isNameChar hname) (by simp [hblank c hc])
  | none =>
    rw [Option.none_or]
    cases hd : u.getLast? with
    | none => rfl
    | some d =>
      obtain rfl : d = '\n' := by simpa [atLineStart, hd] using hu
      rfl

/-- Where the scan finds a declaration, the text has one. -/
theorem declares_of_match {s u t name rest : List Char} (hlined : IsLined s) (hplain : HasPlainLiterals s)
    (hs : s = u ++ t) (h : declaration? u.getLast? t = some (name, rest)) :
    ∃ before, Declares s before name rest ∧ u.length ≤ before.length ∧ IsContractName name := by
  obtain ⟨hstart, l, gap, hl, hgap, ht, hname⟩ := declaration?_eq_some h
  have hchars := isIdentChar_of_identifier? hname
  have hne : name ≠ [] := by
    rintro rfl
    exact absurd (whole_of_identifier? hname).2.1 (by decide)
  have hcode : placeAfter (u ++ l) = .code := by
    refine placeAfter_append_of_code ?_ hl.isQuote
    cases hu : u.getLast? with
    | none => rw [List.getLast?_eq_none_iff.1 hu]; rfl
    | some c =>
      rw [hu] at hstart
      obtain rfl : c = '\n' := by simpa [atLineStart] using hstart
      exact hplain u l gap (name ++ rest) (by rw [hs, ht]) hu hl hgap
  -- The name as the language reads it, which may go on where the scan has ended it.
  have hcut := List.takeWhile_append_dropWhile (p := isNameChar) (l := name ++ rest)
  have hends : ((name ++ rest).dropWhile isNameChar).head?.any isNameChar = false :=
    head?_dropWhile_any isNameChar (name ++ rest)
  have hdeclares : Declares s (u ++ l) ((name ++ rest).takeWhile isNameChar)
      ((name ++ rest).dropWhile isNameChar) := by
    refine ⟨⟨gap, hgap, ?_⟩, hcode, hl.apart hstart, ⟨?_, fun c hc => List.mem_takeWhile_imp hc⟩, hends⟩
    · rw [hcut, hs, ht, List.append_assoc]
    · obtain ⟨c, name, rfl⟩ := List.exists_cons_of_ne_nil hne
      have hc : isNameChar c = true := by simp [isNameChar, hchars c List.mem_cons_self]
      simp [hc]
  obtain ⟨-, hlegal⟩ := hlined _ _ _ hdeclares
  have hread := identifier?_append hlegal.start hlegal.chars (any_isIdentChar hends)
  rw [hcut, hname] at hread
  obtain ⟨hn, hr⟩ := Prod.mk.inj (Option.some.inj hread)
  rw [← hn, ← hr] at hdeclares
  rw [← hn] at hlegal
  exact ⟨u ++ l, hdeclares, by simp, hlegal⟩

theorem exists_taken {before : Option Char} {t name rest : List Char}
    (h : declaration? before t = some (name, rest)) : ∃ taken, taken ≠ [] ∧ t = taken ++ rest := by
  obtain ⟨-, l, gap, -, -, ht, -⟩ := declaration?_eq_some h
  exact ⟨l ++ ("contract".toList ++ (gap ++ name)), by simp, by rw [ht]; simp⟩

theorem IsGap.head? {gap : List Char} (h : IsGap gap) (s : List Char) :
    (gap ++ s).head?.any isIdentChar = false := by
  obtain ⟨c, gap, rfl⟩ := List.exists_cons_of_ne_nil h.1
  refine Bool.eq_false_iff.2 fun hc => ?_
  exact absurd (h.2 c List.mem_cons_self) (by simp [isBlank_of_isIdentChar hc])

/-- A declaration begins, blanks apart, with one of its two words. -/
theorem exists_word {before : Option Char} {t name rest : List Char}
    (h : declaration? before t = some (name, rest)) : ∃ word t',
      (word = "contract".toList ∨ word = "abstract".toList) ∧ t.dropWhile isBlank = word ++ t' ∧
      t'.head?.any isIdentChar = false := by
  obtain ⟨-, l, gap, hl, hgap, ht, -⟩ := declaration?_eq_some h
  cases hl with
  | plain hblanks =>
    refine ⟨_, gap ++ (name ++ rest), .inl rfl, ?_, hgap.head? _⟩
    rw [ht, List.dropWhile_append_of_pos hblanks]
    rfl
  | @abstract blanks g hblanks hg =>
    refine ⟨_, g ++ ("contract".toList ++ (gap ++ (name ++ rest))), .inr rfl, ?_, hg.head? _⟩
    rw [ht, List.append_assoc, List.dropWhile_append_of_pos hblanks, List.append_assoc]
    rfl

theorem identifier?_word {word rest : List Char}
    (hword : word = "contract".toList ∨ word = "abstract".toList)
    (hrest : rest.head?.any isIdentChar = false) : identifier? (word ++ rest) = some (word, rest) := by
  rcases hword with rfl | rfl
  · exact identifier?_append (by decide) (List.all_eq_true.1 (by decide)) hrest
  · exact identifier?_append (by decide) (List.all_eq_true.1 (by decide)) hrest

/-- A line ends inside a declaration only in front of the word or after it. -/
theorem newline_cases {y p l gap name : List Char} (hname : '\n' ∉ name)
    (h : y ++ '\n' :: p = l ++ ("contract".toList ++ (gap ++ name))) :
    (∃ p', l = y ++ '\n' :: p' ∧ p = p' ++ ("contract".toList ++ (gap ++ name))) ∨
      ∃ g, (∀ c ∈ g, c ∈ gap) ∧ p = g ++ name := by
  rcases cons_of_append_eq h with hlead | ⟨q, hq, -⟩
  · exact .inl hlead
  obtain ⟨q', hq', -⟩ := cons_of_append_notMem (by decide) hq.symm
  rcases cons_of_append_eq hq'.symm with ⟨g, hgap, hp⟩ | ⟨q'', hin, -⟩
  · exact .inr ⟨g, fun c hc => by simp [hgap, hc], hp⟩
  · exact absurd (by simp [hin]) hname

/-- A declaration that the scan finds ends before the line of a later one, unless it is that one. White
space before a name could only run into that line if one of the two words were the name. -/
theorem match_ends {s u y t name after name' rest : List Char} (hlined : IsLined s)
    (hplain : HasPlainLiterals s) (hs : s = u ++ (y ++ '\n' :: t))
    (ht : declaration? (some '\n') t = some (name, after))
    (h : declaration? u.getLast? (y ++ '\n' :: t) = some (name', rest)) :
    (∃ taken y', taken ≠ [] ∧ y = taken ++ y' ∧ rest = y' ++ '\n' :: t) ∨
      name' = name ∧ rest = after := by
  obtain ⟨-, -, -, hlegal⟩ := declares_of_match hlined hplain hs h
  obtain ⟨-, l, gap, hl, hgap, hy, hname⟩ := declaration?_eq_some h
  have htext : y ++ '\n' :: t = (l ++ ("contract".toList ++ (gap ++ name'))) ++ rest := by
    rw [hy]
    simp
  rcases cons_of_append_eq htext with ⟨p, hp, rfl⟩ | ⟨q, rfl, hq⟩
  · have hnewline : '\n' ∉ name' := fun hc => absurd (hlegal.chars _ hc) (by decide)
    rcases newline_cases hnewline hp.symm with ⟨p, rfl, rfl⟩ | ⟨g, hg, rfl⟩
    · have hagain := declaration?_of_lead (rfl : atLineStart (some '\n') = true) hl.tail hgap
        (whole_of_identifier? hname).2.1 hlegal.chars (whole_of_identifier? hname).2.2
      simp only [List.append_assoc] at ht
      rw [hagain] at ht
      cases ht
      exact .inr ⟨rfl, rfl⟩
    · obtain ⟨word, t', hword, ht', hends⟩ := exists_word ht
      rw [List.append_assoc, List.dropWhile_append_of_pos fun c hc => hgap.2 c (hg c hc),
        dropWhile_of_head (head_not_isBlank hlegal.start)] at ht'
      obtain ⟨rfl, -⟩ : name' = word ∧ rest = t' := by
        rw [ht', identifier?_word hword hends] at hname
        cases hname
        exact ⟨rfl, rfl⟩
      exact absurd hword (not_or.2 hlegal.free)
  · exact .inl ⟨_, q, by simp, hq, rfl⟩

theorem matchesFrom_of_declaration? {u t name rest : List Char}
    (h : declaration? u.getLast? t = some (name, rest)) : ∃ w, u ++ t = w ++ rest ∧
      matchesFrom declaration? 0 u.getLast? t = name :: matchesFrom declaration? 0 w.getLast? rest := by
  obtain ⟨taken, htaken, rfl⟩ := exists_taken h
  refine ⟨u ++ taken, (List.append_assoc u taken rest).symm, ?_⟩
  rw [List.getLast?_append]
  exact matchesFrom_of_some htaken h

/-- A scan that begins before the line of a declaration comes to it, and goes on after it. -/
theorem matchesFrom_reaches {s t name after : List Char} (hlined : IsLined s) (hplain : HasPlainLiterals s)
    (ht : declaration? (some '\n') t = some (name, after)) (u y : List Char)
    (hs : s = u ++ (y ++ '\n' :: t)) : ∃ found w, s = w ++ after ∧
      matchesFrom declaration? 0 u.getLast? (y ++ '\n' :: t) =
        found ++ name :: matchesFrom declaration? 0 w.getLast? after := by
  induction hn : y.length using Nat.strongRecOn generalizing u y with
  | ind n ih =>
    subst hn
    cases h : declaration? u.getLast? (y ++ '\n' :: t) with
    | some found =>
      obtain ⟨name', rest⟩ := found
      obtain ⟨w, hw, hscan⟩ := matchesFrom_of_declaration? h
      rcases match_ends hlined hplain hs ht h with ⟨taken, y', htaken, rfl, rfl⟩ | ⟨rfl, rfl⟩
      · have hcut : s = (u ++ taken) ++ (y' ++ '\n' :: t) := by rw [hs]; simp
        have hlt : y'.length < (taken ++ y').length := by
          simpa using List.length_pos_iff.2 htaken
        obtain ⟨found, w', hw', hfound⟩ := ih _ hlt (u ++ taken) y' hcut rfl
        have hsame : w = u ++ taken := by
          have hrest : w ++ (y' ++ '\n' :: t) = (u ++ taken) ++ (y' ++ '\n' :: t) := by rw [← hw]; simp
          exact List.append_cancel_right hrest
        rw [hscan, hsame, hfound]
        exact ⟨name' :: found, w', hw', rfl⟩
      · exact ⟨[], w, hs.trans hw, hscan⟩
    | none =>
      cases y with
      | nil =>
        obtain ⟨w, hw, hscan⟩ := matchesFrom_of_declaration? (u := u ++ ['\n']) (by simpa using ht)
        refine ⟨[], w, by rw [hs, ← hw]; simp, ?_⟩
        rw [List.nil_append, matchesFrom_of_none h, hscan]
        rfl
      | cons c y =>
        have hcut : s = (u ++ [c]) ++ (y ++ '\n' :: t) := by rw [hs]; simp
        obtain ⟨found, w, hw, hfound⟩ := ih _ (Nat.lt_succ_self _) (u ++ [c]) y hcut rfl
        refine ⟨found, w, hw, ?_⟩
        rw [List.cons_append] at h ⊢
        rw [matchesFrom_of_none h, hfound]

/-- The scan of an orderly text finds its declarations in their order: what it finds before one and
after it stands before it and after it. -/
theorem declarations_split {s before name after : List Char} (hlined : IsLined s)
    (hplain : HasPlainLiterals s) (hd : Declares s before name after) : ∃ found later,
      declarations s = found ++ name :: later ∧
      ∀ d ∈ later, ∃ before' rest, Declares s before' d rest ∧ before.length < before'.length := by
  obtain ⟨⟨a, l, rfl, hstart, hl⟩, hlegal⟩ := hlined _ _ _ hd
  obtain ⟨gap, hgap, hs⟩ := hd.text
  have ht := declaration?_of_lead hstart hl hgap hlegal.start hlegal.chars (any_isIdentChar hd.whole)
  have hreach : ∃ found w, s = w ++ after ∧
      declarations s = found ++ name :: matchesFrom declaration? 0 w.getLast? after := by
    rcases List.eq_nil_or_concat a with rfl | ⟨y, c, rfl⟩
    · obtain ⟨w, hw, hscan⟩ := matchesFrom_of_declaration? (u := []) ht
      exact ⟨[], w, by rw [hs, ← hw]; simp, by rw [hs]; exact hscan⟩
    · rw [List.concat_eq_append, List.getLast?_concat] at hstart ht
      obtain rfl : c = '\n' := by simpa [atLineStart] using hstart
      have hcut : s = y ++ '\n' :: (l ++ ("contract".toList ++ (gap ++ (name ++ after)))) := by
        rw [hs]
        simp
      obtain ⟨found, w, hw, hfound⟩ := matchesFrom_reaches hlined hplain ht [] y hcut
      exact ⟨found, w, hw, by rw [hcut]; exact hfound⟩
  obtain ⟨found, w, hw, hscan⟩ := hreach
  refine ⟨found, _, hscan, fun d hmem => ?_⟩
  obtain ⟨pre, t, rest, hpre, hle, hmatch⟩ := exists_place_of_mem_matchesFrom hmem
  obtain ⟨before', hd', hle', -⟩ := declares_of_match hlined hplain (hw.trans hpre) hmatch
  have hlength := congrArg List.length (hs.symm.trans hw)
  refine ⟨before', rest, hd', ?_⟩
  have hword : "contract".toList.length = 8 := rfl
  simp only [List.length_append, hword] at hlength ⊢
  omega

theorem declares_of_mem {s d : List Char} (hlined : IsLined s) (hplain : HasPlainLiterals s)
    (h : d ∈ declarations s) : ∃ before rest, Declares s before d rest := by
  have hscan : d ∈ matchesFrom declaration? 0 ([] : List Char).getLast? s := h
  obtain ⟨u, t, rest, hs, -, hmatch⟩ := exists_place_of_mem_matchesFrom hscan
  obtain ⟨before, hd, -, -⟩ := declares_of_match hlined hplain hs hmatch
  exact ⟨before, rest, hd⟩

/-- The declaration that a text has behind some of it, if it has one there. -/
def declaredAfter? (before rest : List Char) : Option (List Char × List Char) :=
  if before.getLast?.any isNameChar then none else
  ((after? "contract".toList rest).bind (afterSome? isBlank)).bind fun s =>
    if s.head?.any isNameChar ∧ placeAfter before = .code then
      some (s.takeWhile isNameChar, s.dropWhile isNameChar)
    else none

theorem Declares.declaredAfter? {s before name after : List Char} (h : Declares s before name after) :
    ∃ rest, s = before ++ rest ∧ declaredAfter? before rest = some (name, after) := by
  obtain ⟨gap, hgap, hs⟩ := h.text
  obtain ⟨c, name, rfl⟩ := List.exists_cons_of_ne_nil h.named.1
  have hc : isNameChar c = true := h.named.2 c List.mem_cons_self
  have hhead : ((c :: name) ++ after).head?.any isBlank = false := isBlank_of_isNameChar hc
  refine ⟨_, hs, ?_⟩
  rw [Source.declaredAfter?, h.apart, if_neg (by decide), after?_append, Option.bind_some,
    hgap.afterSome? hhead, Option.bind_some, if_pos ⟨hc, h.code⟩,
    List.takeWhile_append_of_pos h.named.2, List.dropWhile_append_of_pos h.named.2,
    dropWhile_of_head h.whole, takeWhile_of_head h.whole, List.append_nil]

theorem declares_of_declaredAfter? {s before rest name after : List Char} (hs : s = before ++ rest)
    (h : declaredAfter? before rest = some (name, after)) : Declares s before name after := by
  unfold declaredAfter? at h
  split at h
  · cases h
  next hapart =>
    obtain ⟨u, hu, h⟩ := Option.bind_eq_some_iff.1 h
    obtain ⟨t, ht, hu⟩ := Option.bind_eq_some_iff.1 hu
    obtain ⟨gap, hgap, rfl⟩ := isGap_of_afterSome? hu
    rw [after?_eq_some] at ht
    split at h
    next hname =>
      cases h
      refine ⟨⟨gap, hgap, ?_⟩, hname.2, by simpa using hapart,
        ⟨fun hnil => ?_, fun c hc => List.mem_takeWhile_imp hc⟩, head?_dropWhile_any isNameChar u⟩
      · rw [List.takeWhile_append_dropWhile, hs, ht]
      · cases u with
        | nil => exact absurd hname.1 (by decide)
        | cons c u =>
          have hc : isNameChar c = true := hname.1
          rw [List.takeWhile_cons_of_pos hc] at hnil
          cases hnil
    next => cases h

/-- Whether what stands on the line that a text has come to may stand in front of the word. -/
def beginsLine (before : List Char) : Bool :=
  let line := (before.reverse.takeWhile (· != '\n')).reverse
  line.all isBlank ||
    ((after? "abstract".toList (line.dropWhile isBlank)).any fun gap => !gap.isEmpty && gap.all isBlank)

theorem beginsLine_sound {before : List Char} (h : beginsLine before = true) : BeginsLine before := by
  let line := (before.reverse.takeWhile (· != '\n')).reverse
  have hcut : before = (before.reverse.dropWhile (· != '\n')).reverse ++ line := by
    rw [← List.reverse_append, List.takeWhile_append_dropWhile, List.reverse_reverse]
  refine ⟨_, line, hcut, ?_, ?_⟩
  · have hend := head?_dropWhile_any (· != '\n') before.reverse
    rw [List.getLast?_reverse]
    cases hd : (before.reverse.dropWhile (· != '\n')).head? with
    | none => rfl
    | some c => simpa [hd, atLineStart] using hend
  · rcases Bool.or_eq_true_iff.1 h with hblanks | habstract
    · exact .plain (List.all_eq_true.1 hblanks)
    · obtain ⟨gap, hword, hgap⟩ := (Option.any_eq_true _ _).1 habstract
      rw [after?_eq_some] at hword
      have hblanks : ∀ c ∈ line.takeWhile isBlank, isBlank c = true := fun c hc => List.mem_takeWhile_imp hc
      have hlead : IsLead (line.takeWhile isBlank ++ ("abstract".toList ++ gap)) :=
        .abstract hblanks (by simpa [IsGap] using hgap)
      rwa [← hword, List.takeWhile_append_dropWhile] at hlead

/-- Whether each declaration of a text begins a line and has a name. -/
def declaresOnLines (s : List Char) : Bool :=
  (List.range (s.length + 1)).all fun i =>
    (declaredAfter? (s.take i) (s.drop i)).all fun d =>
      beginsLine (s.take i) && d.1.head?.any isIdentStart && d.1.all isIdentChar &&
        d.1 != "contract".toList && d.1 != "abstract".toList

/-- Whether each line of a text begins as code. -/
def linesAreCode (s : List Char) : Bool :=
  (List.range (s.length + 1)).all fun i =>
    (s.take i).getLast? != some '\n' || placeAfter (s.take i) == .code

theorem all_of_append {s a rest : List Char} {p : Nat → Bool} (hs : s = a ++ rest)
    (h : (List.range (s.length + 1)).all p = true) : p a.length = true :=
  List.all_eq_true.1 h a.length (List.mem_range.2 (by rw [hs, List.length_append]; omega))

theorem isLined_of_declaresOnLines {s : List Char} (h : declaresOnLines s = true) : IsLined s := by
  intro before name after hd
  obtain ⟨rest, hs, hfound⟩ := hd.declaredAfter?
  have hat := all_of_append hs h
  rw [hs, List.take_left, List.drop_left, hfound] at hat
  simp only [Option.all_some, Bool.and_eq_true, List.all_eq_true, bne_iff_ne] at hat
  obtain ⟨⟨⟨⟨hbegins, hstart⟩, hchars⟩, hcontract⟩, habstract⟩ := hat
  exact ⟨beginsLine_sound hbegins, hstart, hchars, hcontract, habstract⟩

theorem hasPlainLiterals_of_linesAreCode {s : List Char} (h : linesAreCode s = true) :
    HasPlainLiterals s := by
  intro a l gap rest hs hend hl hgap
  have hat := all_of_append hs h
  rw [hs, List.take_left, hend] at hat
  simpa using hat

/-- Whether a text has a declaration of a name at a place, and later ones of other names only. -/
def isLatest (compiled : List RawText) (name : String) (i : Nat) (s : List Char) : Bool :=
  ((declaredAfter? (s.take i) (s.drop i)).any fun d => d.1 == name.toList) &&
    (List.range (s.length + 1)).all fun j => j ≤ i ||
      (declaredAfter? (s.take j) (s.drop j)).all fun d => !compiled.contains (.formed (String.ofList d.1))

theorem isLatest_sound {s : List Char} {compiled : List RawText} {name : String} {i : Nat}
    (hmem : .formed name ∈ compiled) (h : isLatest compiled name i s = true) :
    IsLastDeclared s compiled (.formed name) := by
  obtain ⟨hfound, hlater⟩ := Bool.and_eq_true_iff.1 h
  obtain ⟨⟨found, after⟩, hd, hname⟩ := (Option.any_eq_true _ _).1 hfound
  obtain rfl : found = name.toList := beq_iff_eq.1 hname
  refine ⟨hmem, name, s.take i, after, rfl, declares_of_declaredAfter? (List.take_append_drop i s).symm hd, ?_⟩
  intro before' name' after' hd' hcompiled
  obtain ⟨rest, hs, hfound'⟩ := hd'.declaredAfter?
  have hat := all_of_append hs hlater
  rw [hs, List.take_left, List.drop_left, hfound'] at hat
  have hle : before'.length ≤ i := by simpa [hcompiled] using hat
  rw [List.length_take, hs, List.length_append]
  omega

end Solwright.Source
