import Solwright.Proofs.Json.Lexing

/-! When reading comes to a limit. A numeral that is too long needs as many digits, and a value that is
nested too deeply as many brackets, so a text with fewer of both comes to no limit. -/

namespace Solwright.Json

open Solwright.Number Solwright.Text

variable {limit : Nat}

/-- Reading a text comes to a limit, which is no fault of its syntax. -/
def MeetsLimit (read : List Char → Except Fault Json) (s : List Char) : Prop :=
  ∃ f, read s = .error f ∧ f.syntax? = none

instance (read : List Char → Except Fault Json) (s : List Char) : Decidable (MeetsLimit read s) :=
  match h : read s with
  | .ok _ => .isFalse (by
      rintro ⟨f, hf, -⟩
      rw [h] at hf
      cases hf)
  | .error f => decidable_of_iff (f.syntax?.isNone = true) (by
      constructor
      · exact fun hnone => ⟨f, h, Option.isNone_iff_eq_none.1 hnone⟩
      · rintro ⟨g, hg, hnone⟩
        rw [h] at hg
        cases hg
        exact Option.isNone_iff_eq_none.2 hnone)

/-- An opening bracket or brace. -/
def isOpening (c : Char) : Bool :=
  c == '[' || c == '{'

/-- Whether a token opens an array or object. -/
def Token.isOpening : Token → Bool
  | .openArray | .openObject => true
  | _ => false

/-- How many arrays and objects are open. The object whose member is named is not among the frames
until the value of the member comes. -/
def Reader.depth (r : Reader) : Nat :=
  match r.expecting with
  | .name _ | .colon _ _ => r.frames.length + 1
  | .nameOrClose => max r.frames.length 1
  | _ => r.frames.length

theorem takeWhole?_eq_some {s w r : List Char} (h : takeWhole? s = some (w, r)) :
    s = w ++ r ∧ ∀ d ∈ w, d.isDigit = true := by
  unfold takeWhole? at h
  split at h
  next t =>
    cases h
    exact ⟨rfl, by simp⟩
  next c t _ =>
    split at h
    next hc =>
      cases h
      refine ⟨by simp, fun d hd => ?_⟩
      rcases List.mem_cons.1 hd with rfl | hd
      · exact hc
      · exact List.mem_takeWhile_imp hd
    next => cases h
  next => cases h

theorem whole_of_unsigned {negative : Bool} {s r : List Char} {n : NumeralParts}
    (h : takeUnsigned? negative s = some (n, r)) : n.whole <+: s ∧ ∀ d ∈ n.whole, d.isDigit = true := by
  obtain ⟨⟨w, t⟩, hw, hn⟩ := Option.map_eq_some_iff.1 h
  obtain ⟨rfl, hdigits⟩ := takeWhole?_eq_some hw
  cases hn
  exact ⟨List.prefix_append _ _, hdigits⟩

/-- The whole part of a numeral consists of digits of it. -/
theorem whole_of_numeral {s r : List Char} {n : NumeralParts} (h : takeNumeral? s = some (n, r)) :
    n.whole <:+: s ∧ ∀ d ∈ n.whole, d.isDigit = true := by
  unfold takeNumeral? at h
  split at h
  next =>
    obtain ⟨hfront, hdigits⟩ := whole_of_unsigned h
    exact ⟨hfront.isInfix.trans (List.suffix_cons _ _).isInfix, hdigits⟩
  next =>
    obtain ⟨hfront, hdigits⟩ := whole_of_unsigned h
    exact ⟨hfront.isInfix, hdigits⟩

/-- A numeral has as many digits as its whole part. -/
theorem length_whole_le_of_numeral {s r : List Char} {n : NumeralParts} (h : takeNumeral? s = some (n, r)) :
    n.whole.length ≤ s.countP Char.isDigit := by
  obtain ⟨hinside, hdigits⟩ := whole_of_numeral h
  rw [← List.countP_eq_length.2 hdigits]
  exact hinside.sublist.countP_le

theorem lt_of_brokenNumeral {n : NumeralParts} {f : Fault} (h : n.token = .brokenNumeral f) :
    digitLimit < n.whole.length := by
  unfold NumeralParts.token at h
  split at h
  · split at h
    next hlt => exact hlt
    next => cases h
  · cases h

theorem syntax_of_quotedText {start p : Nat} {ns : List Nat} {s : List Char} {f : Fault}
    (h : quotedText start p ns s = .error f) : f.syntax?.isSome = true := by
  fun_induction quotedText start p ns s with
  | case1 | case3 | case4 | case6 | case8 | case9 | case10 => cases h; rfl
  | case2 => cases h
  | case5 _ _ _ _ _ _ _ _ _ _ ih => exact ih h
  | case7 _ _ _ _ _ _ _ _ ih => exact ih h
  | case11 _ _ _ _ _ _ _ _ _ ih => exact ih h

/-- A token that is broken by a limit takes more digits than there may be. -/
theorem limit_of_firstToken {p : Nat} {c : Char} {s : List Char} {f : Fault}
    (h : (firstToken p c s).1 = .brokenText f ∨ (firstToken p c s).1 = .brokenNumeral f)
    (hf : f.syntax? = none) : digitLimit < (c :: s).countP Char.isDigit := by
  unfold firstToken at h
  split at h
  next t ht =>
    have hmark := isMark_of_mark? ht
    rcases h with rfl | rfl <;> cases hmark
  split at h
  · split at h
    · simp at h
    next hs =>
      have hsome := syntax_of_quotedText hs
      rcases h with h | h <;> cases h
      simp [hf] at hsome
  split at h
  · simp at h
  split at h
  next n rest hn =>
    have hbroken : n.token = .brokenNumeral f := by
      refine h.resolve_left fun htext => ?_
      rcases token_cases n with ⟨v, hv⟩ | ⟨f, hv⟩ <;> simp [hv] at htext
    exact Nat.lt_of_lt_of_le (lt_of_brokenNumeral hbroken) (length_whole_le_of_numeral hn)
  next => simp at h

namespace Reader

theorem depth_complete (v : Json) (fs : List Frame) : (complete v fs).depth = fs.length := by
  rcases fs with _ | ⟨_ | _, fs⟩ <;> rfl

theorem depth_of_isValue {fs : List Frame} {e : Expecting} (he : e.isValue = true) :
    depth ⟨fs, e⟩ = fs.length := by
  cases e <;> first | rfl | cases he

/-- A token opens one array or object at most. -/
theorem Moves.depth_le {r r' : Reader} {t : Token} (h : Moves limit r t r') :
    r'.depth ≤ r.depth + t.isOpening.toNat := by
  cases h with
  | scalar he | text he => simp [depth_complete, depth_of_isValue he]
  | openArray he =>
    rw [depth_of_isValue he]
    simp [depth, Token.isOpening]
  | openObject he =>
    rw [depth_of_isValue he]
    simp [depth, Token.isOpening]
  | closeEmptyArray | closeEmptyObject | closeArray | closeObject =>
    rw [depth_complete]
    simp [depth]
    omega
  | firstName =>
    simp [depth]
    omega
  | name | colon | nextItem | nextMember => simp [depth]

theorem takeValue_eq_error {fs : List Frame} {p : Nat} {t : Token} {f : Fault}
    (h : takeValue limit fs p t = .error f) (hf : f.syntax? = none) :
    t = .brokenText f ∨ t = .brokenNumeral f ∨ t.isOpening = true ∧ limit ≤ fs.length := by
  have hdeeper : ∀ {b r}, deeper limit b fs r = .error f → limit ≤ fs.length := by
    intro b r hdeep
    by_contra hlt
    rw [deeper, if_neg hlt] at hdeep
    cases hdeep
  cases t with
  | openArray | openObject => exact .inr (.inr ⟨rfl, hdeeper h⟩)
  | brokenText | brokenNumeral => cases h; simp
  | scalar | text => cases h
  | closeArray | closeObject | comma | colon | stray => cases h; cases hf

theorem takeName_eq_error {fs : List Frame} {ms : List (RawText × Json)} {p : Nat} {t : Token} {f : Fault}
    (h : takeName fs ms p t = .error f) (hf : f.syntax? = none) : t = .brokenText f := by
  cases t <;> cases h <;> first | rfl | cases hf

/-- A limit is met at a broken token, or where too many arrays and objects are open. -/
theorem step_eq_error {r : Reader} {t : Token} {p : Nat} {f : Fault} (h : r.step limit (t, p) = .error f)
    (hf : f.syntax? = none) :
    t = .brokenText f ∨ t = .brokenNumeral f ∨ t.isOpening = true ∧ limit ≤ r.depth := by
  obtain ⟨fs, e⟩ := r
  unfold step at h
  dsimp only at h
  split at h
  next => exact takeValue_eq_error h hf
  next => cases h
  next => exact takeValue_eq_error h hf
  next => cases h
  next => exact .inl (takeName_eq_error h hf)
  next => exact .inl (takeName_eq_error h hf)
  next => cases h
  next => cases h; cases hf
  next => cases t <;> cases h <;> cases hf
  next => cases t <;> cases h <;> cases hf
  next => cases h; cases hf
  next => cases h; cases hf

theorem syntax_of_finish {r : Reader} {e : Nat} {f : Fault} (h : r.finish e = .error f) :
    f.syntax?.isSome = true := by
  obtain ⟨fs, x⟩ := r
  cases x <;> cases h <;> rfl

end Reader

theorem isOpening_of_mark? {c : Char} {t : Token} (h : mark? c = some t) :
    t.isOpening = isOpening c := by
  unfold mark? at h
  simp only [beq_iff_eq] at h
  split_ifs at h with h1 h2 h3 h4 h5 h6 <;> cases h <;> subst_vars <;> rfl

/-- A token that opens an array or object is a single character. -/
theorem opening_of_firstToken {p n : Nat} {c : Char} {s rest : List Char} {t : Token}
    (h : firstToken p c s = (t, n, rest)) :
    t.isOpening.toNat + rest.countP isOpening ≤ (c :: s).countP isOpening := by
  have hrest : rest.countP isOpening ≤ s.countP isOpening := by
    have hsuffix := firstToken_suffix p c s
    rw [h] at hsuffix
    exact hsuffix.sublist.countP_le
  cases ht : t.isMark with
  | true =>
    obtain ⟨hmark, rfl⟩ := firstToken_isMark h ht
    rw [isOpening_of_mark? hmark, List.countP_cons]
    split <;> simp_all [Nat.add_comm]
  | false =>
    have hclosed : t.isOpening = false := by cases t <;> first | rfl | cases ht
    rw [hclosed, List.countP_cons]
    simp only [Bool.toNat_false]
    omega

/-- A change of tokens that keeps their places, and changes no more than the code points of what is quoted. -/
structure Requotes (g : Token × Nat → Token × Nat) : Prop where
  text (ns : List Nat) (p : Nat) : ∃ ns', g (.text ns, p) = (.text ns', p)
  other {t : Token} (p : Nat) (h : ∀ ns, t ≠ .text ns) : g (t, p) = (t, p)

theorem requotes_id : Requotes id :=
  ⟨fun ns _ => ⟨ns, rfl⟩, fun _ _ => rfl⟩

theorem Requotes.kept {g : Token × Nat → Token × Nat} (hg : Requotes g) (t : Token) (p : Nat) :
    ∃ t', g (t, p) = (t', p) ∧ t'.isOpening = t.isOpening ∧ (∀ f, t' = .brokenText f → t = .brokenText f) ∧
      ∀ f, t' = .brokenNumeral f → t = .brokenNumeral f := by
  cases t with
  | text ns =>
    obtain ⟨ns', hns⟩ := hg.text ns p
    exact ⟨.text ns', hns, rfl, nofun, nofun⟩
  | _ => exact ⟨_, hg.other p nofun, rfl, fun _ => id, fun _ => id⟩

/-- A reader that meets a limit has come by too many digits, or has too many brackets open. -/
theorem limit_of_run {g : Token × Nat → Token × Nat} (hg : Requotes g) {n p e : Nat} {s : List Char} {r : Reader}
    {f : Fault} (h : r.run limit e ((tokensWithin n p s).map g) = .error f) (hf : f.syntax? = none) :
    digitLimit < s.countP Char.isDigit ∨ limit < r.depth + s.countP isOpening := by
  induction n generalizing p s r with
  | zero =>
    have hfinish : r.finish e = .error f := by
      cases s <;> exact h
    have hsome := Reader.syntax_of_finish hfinish
    simp [hf] at hsome
  | succ n ih =>
    cases s with
    | nil =>
      have hsome := Reader.syntax_of_finish h
      simp [hf] at hsome
    | cons c s =>
      rw [tokensWithin] at h
      split at h
      next =>
        rcases ih h with hlt | hlt
        · exact .inl (Nat.lt_of_lt_of_le hlt (by simp [List.countP_cons]))
        · exact .inr (Nat.lt_of_lt_of_le hlt (by simp [List.countP_cons]))
      next =>
        rcases hfirst : firstToken p c s with ⟨t, next, rest⟩
        obtain ⟨t', ht', hsame, htext, hnumeral⟩ := hg.kept t p
        have hopening := opening_of_firstToken hfirst
        rw [hfirst, List.map_cons, ht', Reader.run] at h
        split at h
        next r' hstep =>
          have hdepth := (Reader.moves_of_step hstep).depth_le
          rw [hsame] at hdepth
          have hsuffix : rest <:+ s := by
            have hsuffix := firstToken_suffix p c s
            rwa [hfirst] at hsuffix
          rcases ih h with hlt | hlt
          · have hle : rest.countP Char.isDigit ≤ (c :: s).countP Char.isDigit :=
              (hsuffix.trans (List.suffix_cons c s)).sublist.countP_le
            exact .inl (Nat.lt_of_lt_of_le hlt hle)
          · exact .inr (by omega)
        next f' hstep =>
          obtain rfl : f' = f := Except.error.inj h
          rcases Reader.step_eq_error hstep hf with ht | ht | ⟨ht, hle⟩
          · exact .inl (limit_of_firstToken (.inl (by rw [hfirst, htext _ ht])) hf)
          · exact .inl (limit_of_firstToken (.inr (by rw [hfirst, hnumeral _ ht])) hf)
          · rw [← hsame, ht] at hopening
            simp only [Bool.toNat_true] at hopening
            exact .inr (by omega)

/-- A text that meets a limit has too many digits or too many opening brackets. -/
theorem MeetsLimit.counts {s : List Char} (h : MeetsLimit (Json.read limit) s) :
    digitLimit < s.countP Char.isDigit ∨ limit < s.countP isOpening := by
  obtain ⟨f, hread, hf⟩ := h
  unfold read at hread
  split at hread
  · cases hread
    cases hf
  · rw [readDecoded, ← List.map_id (tokens s)] at hread
    simpa [Reader.depth, Reader.start] using limit_of_run requotes_id hread hf

theorem meetsLimit_of_run {c : Char} {s : List Char} {f : Fault} (hc : c ≠ Char.ofNat 0xFEFF)
    (h : Reader.start.run limit (c :: s).length (tokens (c :: s)) = .error f) (hf : f.syntax? = none) :
    MeetsLimit (Json.read limit) (c :: s) := by
  refine ⟨f, ?_, hf⟩
  rw [read, if_neg (by simpa using hc)]
  exact h

/-- A numeral of too many digits is the first token of a text that begins with it, whatever follows. -/
theorem tokens_digits {ds s : List Char} (hds : ∀ d ∈ ds, d.isDigit = true) (hzero : ds.head? ≠ some '0')
    (hlimit : digitLimit < ds.length) (hs : Ends s) :
    ∃ ts, tokens (ds ++ s) = (.brokenNumeral (.longNumeral ds.length), 0) :: ts := by
  obtain ⟨c, ds, rfl⟩ := List.exists_cons_of_ne_nil (List.ne_nil_of_length_pos (Nat.zero_lt_of_lt hlimit))
  obtain ⟨hc, htail⟩ := List.forall_mem_cons.1 hds
  have hne : ∀ d : Char, d.isDigit = false → c ≠ d := by
    rintro d hd rfl
    rw [hc] at hd
    cases hd
  have hzero : c ≠ '0' := by simpa using hzero
  have hwhole : takeWhole? (c :: ds) = some (c :: ds, []) := by
    rw [takeWhole?.eq_2 c ds (fun h => hzero h), if_pos hc, List.takeWhile_eq_self_iff.2 htail,
      List.dropWhile_eq_nil_iff.2 htail]
  obtain ⟨n, hn, hbroken⟩ : ∃ n, takeNumeral? (c :: ds) = some (n, []) ∧
      n.token = .brokenNumeral (.longNumeral (c :: ds).length) := by
    rw [takeNumeral?_of_ne (hne '-' (by decide)), takeUnsigned?, hwhole]
    refine ⟨_, rfl, ?_⟩
    exact if_pos hlimit
  have hsplit : takeNumeral? (c :: (ds ++ s)) = some (n, s) := by
    rw [← List.cons_append, hs.takeNumeral?, hn]
    rfl
  have hfirst : firstToken 0 c (ds ++ s) = (.brokenNumeral (.longNumeral (c :: ds).length), 0 + n.width, s) := by
    rw [← hbroken]
    have hatom := isSpace_of_isAtomChar (isAtomChar_of_isDigit hc)
    exact firstToken_numeral hatom.2.1 (by simpa using hatom.2.2) (takeLiteral?_digit hc _).1 hsplit
  have hspace : isSpace c = false := (isSpace_of_isAtomChar (isAtomChar_of_isDigit hc)).1
  rw [List.cons_append, tokens, List.length_cons, tokensWithin, hspace, hfirst]
  exact ⟨_, rfl⟩

theorem run_digits {g : Token × Nat → Token × Nat} (hg : Requotes g) {ds s : List Char}
    (hds : ∀ d ∈ ds, d.isDigit = true) (hzero : ds.head? ≠ some '0') (hlimit : digitLimit < ds.length)
    (hs : Ends s) (e : Nat) :
    Reader.start.run limit e ((tokens (ds ++ s)).map g) = .error (.longNumeral ds.length) := by
  obtain ⟨ts, hts⟩ := tokens_digits hds hzero hlimit hs
  rw [hts, List.map_cons, hg.other (t := .brokenNumeral (.longNumeral ds.length)) 0 (by simp)]
  rfl

/-- A numeral of too many digits meets the limit, whatever follows it. -/
theorem meetsLimit_of_digits {ds s : List Char} (hds : ∀ d ∈ ds, d.isDigit = true)
    (hzero : ds.head? ≠ some '0') (hlimit : digitLimit < ds.length) (hs : Ends s) :
    MeetsLimit (Json.read limit) (ds ++ s) := by
  have hrun : Reader.start.run limit (ds ++ s).length (tokens (ds ++ s)) = .error (.longNumeral ds.length) := by
    rw [← List.map_id (tokens (ds ++ s))]
    exact run_digits requotes_id hds hzero hlimit hs _
  obtain ⟨c, ds, rfl⟩ := List.exists_cons_of_ne_nil (List.ne_nil_of_length_pos (Nat.zero_lt_of_lt hlimit))
  refine meetsLimit_of_run ?_ hrun rfl
  rintro rfl
  exact absurd (hds _ List.mem_cons_self) (by decide)

theorem run_nested {g : Token × Nat → Token × Nat} (hg : Requotes g) {k n p e : Nat} {s : List Char}
    {fs : List Frame} {x : Expecting} (hx : x.isValue = true) (hn : k ≤ n) (hfs : fs.length ≤ limit)
    (hlimit : limit < fs.length + k) :
    Reader.run limit ⟨fs, x⟩ e ((tokensWithin n p (List.replicate k '[' ++ s)).map g) =
      .error (.nesting false) := by
  induction k generalizing n p fs x with
  | zero => omega
  | succ k ih =>
    obtain ⟨n, rfl⟩ : ∃ m, n = m + 1 := ⟨n - 1, by omega⟩
    have hfirst : firstToken p '[' (List.replicate k '[' ++ s) =
        (.openArray, p + 1, List.replicate k '[' ++ s) := rfl
    have hspace : isSpace '[' = false := by decide
    rw [List.replicate_succ, List.cons_append, tokensWithin, hspace, if_neg Bool.false_ne_true, hfirst,
      List.map_cons, hg.other (t := .openArray) p (by simp), Reader.run, Reader.step_value hx (by simp),
      Reader.takeValue, Reader.deeper]
    by_cases hfull : limit ≤ fs.length
    · rw [if_pos hfull]
    · rw [if_neg hfull]
      apply ih
      · rfl
      · omega
      · simp only [List.length_cons]
        omega
      · simp only [List.length_cons]
        omega

theorem run_brackets {g : Token × Nat → Token × Nat} (hg : Requotes g) {k : Nat} (hlimit : limit < k)
    (s : List Char) (e : Nat) :
    Reader.start.run limit e ((tokens (List.replicate k '[' ++ s)).map g) = .error (.nesting false) := by
  apply run_nested hg
  · rfl
  · simp
  · exact Nat.zero_le _
  · simpa using hlimit

/-- Too many opening brackets meet the limit, whatever follows them. -/
theorem meetsLimit_of_nested {k : Nat} (hlimit : limit < k) (s : List Char) :
    MeetsLimit (Json.read limit) (List.replicate k '[' ++ s) := by
  have hrun : Reader.start.run limit (List.replicate k '[' ++ s).length (tokens (List.replicate k '[' ++ s)) =
      .error (.nesting false) := by
    rw [← List.map_id (tokens (List.replicate k '[' ++ s))]
    exact run_brackets requotes_id hlimit s _
  obtain ⟨k, rfl⟩ : ∃ m, k = m + 1 := ⟨k - 1, by omega⟩
  exact meetsLimit_of_run (by decide) hrun rfl

end Solwright.Json
