import Solwright.Json.Reader
import Solwright.Proofs.Json.Atom
import Solwright.Proofs.Json.Spelling

/-! Reading JSON without places. `Lexes` breaks a text up into tokens and `Reads` takes them; what the
reader accepts is what both accept, with anything after a text that ends in a mark. -/

namespace Solwright.Json

open Solwright.Number Solwright.Text

/-- A word or numeral and its value, wherever it may end. -/
structure IsAtom (c : Char) (a : List Char) (v : Json) : Prop where
  chars : ∀ d ∈ c :: a, isAtomChar d = true
  token : ∀ p s, Ends s → ∃ n, firstToken p c (a ++ s) = (.scalar v, n, s)

/-- How a text breaks up into tokens, up to a rest. -/
inductive Lexes : List Char → List Token → List Char → Prop
  | done {s : List Char} : Lexes s [] s
  | space {c : Char} {s r : List Char} {ts : List Token} : isSpace c = true → Lexes s ts r →
      Lexes (c :: s) ts r
  | mark {c : Char} {t : Token} {s r : List Char} {ts : List Token} : mark? c = some t →
      Lexes s ts r → Lexes (c :: s) (t :: ts) r
  | text {body s r : List Char} {ns : List Nat} {ts : List Token} : Spells body [] ns →
      Lexes s ts r → Lexes ('"' :: (body ++ '"' :: s)) (.text ns.reverse :: ts) r
  | atom {c : Char} {a s r : List Char} {v : Json} {ts : List Token} : IsAtom c a v → Ends s →
      Lexes s ts r → Lexes (c :: (a ++ s)) (.scalar v :: ts) r

/-- The tokens that a single character can give. -/
def Token.isMark : Token → Bool
  | .openArray | .closeArray | .openObject | .closeObject | .comma | .colon => true
  | _ => false

theorem isMark_of_mark? {c : Char} {t : Token} (h : mark? c = some t) : t.isMark = true := by
  unfold mark? at h
  split_ifs at h <;> cases h <;> rfl

theorem isSpace_of_mark? {c : Char} {t : Token} (h : mark? c = some t) : isSpace c = false := by
  unfold mark? at h
  simp only [beq_iff_eq] at h
  split_ifs at h with h1 h2 h3 h4 h5 h6 <;> subst_vars <;> rfl

theorem token_cases (n : NumeralParts) :
    (∃ v, n.token = .scalar v) ∨ ∃ f, n.token = .brokenNumeral f := by
  unfold NumeralParts.token
  split
  · split
    · exact .inr ⟨_, rfl⟩
    · exact .inl ⟨_, rfl⟩
  · exact .inl ⟨_, rfl⟩

theorem isSome_mark?_of_firstToken {p : Nat} {c : Char} {s : List Char}
    (h : (firstToken p c s).1.isMark = true) : (mark? c).isSome = true := by
  unfold firstToken at h
  split at h
  next t ht => simp [ht]
  next =>
    split at h
    · split at h <;> cases h
    · split at h
      · cases h
      · split at h
        next n rest _ =>
          rcases token_cases n with ⟨v, hv⟩ | ⟨f, hf⟩
          · simp [hv, Token.isMark] at h
          · simp [hf, Token.isMark] at h
        next => cases h

theorem firstToken_literal {c : Char} {p n : Nat} {s r : List Char} {v : Json} (hm : mark? c = none)
    (hq : (c == '"') = false) (h : takeLiteral? (c :: s) = some (v, n, r)) :
    firstToken p c s = (.scalar v, p + n, r) := by
  simp only [firstToken, hm, hq, h, Bool.false_eq_true, if_false]

theorem firstToken_numeral {c : Char} {p : Nat} {s r : List Char} {n : NumeralParts}
    (hm : mark? c = none) (hq : (c == '"') = false) (hl : takeLiteral? (c :: s) = none)
    (h : takeNumeral? (c :: s) = some (n, r)) : firstToken p c s = (n.token, p + n.width, r) := by
  simp only [firstToken, hm, hq, hl, h, Bool.false_eq_true, if_false]

theorem isAtom_of_literal {c : Char} {n : Nat} {s r : List Char} {v : Json} (hm : mark? c = none)
    (hq : (c == '"') = false) (h : takeLiteral? (c :: s) = some (v, n, r)) (hr : Ends r) :
    ∃ a, s = a ++ r ∧ IsAtom c a v := by
  obtain ⟨hc, a, rfl, ha⟩ := takes_takeLiteral h
  refine ⟨a, rfl, ⟨fun d hd => ?_, fun p s hs => ?_⟩⟩
  · rcases List.mem_cons.1 hd with rfl | hd
    · exact hc
    · exact ha d hd
  · -- the word is found in itself, so in front of everything in which it ends
    have hself : takeLiteral? (c :: a) = some (v, n, []) := by
      rw [← List.cons_append, hr.takeLiteral?] at h
      obtain ⟨⟨v', n', r'⟩, hx, hy⟩ := Option.map_eq_some_iff.1 h
      obtain ⟨rfl, rfl, rfl⟩ : v' = v ∧ n' = n ∧ r' = [] := by simpa using hy
      exact hx
    refine ⟨p + n, firstToken_literal hm hq ?_⟩
    rw [← List.cons_append, hs.takeLiteral?, hself]
    rfl

theorem isAtom_of_numeral {c : Char} {s r : List Char} {n : NumeralParts} {v : Json}
    (hm : mark? c = none) (hq : (c == '"') = false) (h : takeNumeral? (c :: s) = some (n, r))
    (hv : n.token = .scalar v) (hr : Ends r) : ∃ a, s = a ++ r ∧ IsAtom c a v := by
  have hdigit : ∃ a, s = a ++ r ∧ (∀ d ∈ c :: a, isAtomChar d = true) ∧
      ∀ s, takeLiteral? (c :: (a ++ s)) = none := by
    rcases takes_takeNumeral h with ⟨d, t, hs, hd, a, rfl, ha⟩ | ⟨d, t, hs, hd, a, rfl, ha⟩
    · obtain ⟨rfl, rfl⟩ := List.cons.inj hs
      refine ⟨a, rfl, fun e he => ?_, fun s => (takeLiteral?_digit hd _).1⟩
      rcases List.mem_cons.1 he with rfl | he
      · exact isAtomChar_of_isDigit hd
      · exact ha e he
    · obtain ⟨rfl, rfl⟩ := List.cons.inj hs
      refine ⟨d :: a, rfl, fun e he => ?_, fun s => (takeLiteral?_digit hd _).2⟩
      rcases List.mem_cons.1 he with rfl | he
      · decide
      · rcases List.mem_cons.1 he with rfl | he
        · exact isAtomChar_of_isDigit hd
        · exact ha e he
  obtain ⟨a, rfl, ha, hl⟩ := hdigit
  have hself : takeNumeral? (c :: a) = some (n, []) := by
    rw [← List.cons_append, hr.takeNumeral?] at h
    obtain ⟨⟨n', r'⟩, hx, hy⟩ := Option.map_eq_some_iff.1 h
    obtain ⟨rfl, rfl⟩ : n' = n ∧ r' = [] := by simpa using hy
    exact hx
  refine ⟨a, rfl, ha, fun p s hs => ⟨p + n.width, ?_⟩⟩
  rw [← hv]
  refine firstToken_numeral hm hq (hl s) ?_
  rw [← List.cons_append, hs.takeNumeral?, hself]
  rfl

theorem isAtom_of_firstToken {p n : Nat} {c : Char} {s r : List Char} {v : Json}
    (h : firstToken p c s = (.scalar v, n, r)) (hr : Ends r) : ∃ a, s = a ++ r ∧ IsAtom c a v := by
  unfold firstToken at h
  split at h
  next t ht =>
    cases h
    cases isMark_of_mark? ht
  next hm =>
    split at h
    · split at h <;> cases h
    next hq =>
      have hq : (c == '"') = false := by simpa using hq
      split at h
      next v' w rest hl =>
        cases h
        exact isAtom_of_literal hm hq hl hr
      next hl =>
        split at h
        next n' rest hn =>
          obtain ⟨hv, -, rfl⟩ : n'.token = .scalar v ∧ p + n'.width = n ∧ rest = r := by simpa using h
          exact isAtom_of_numeral hm hq hn hv hr
        next => cases h

/-- Where a value may stand next. -/
def Expecting.isValue : Expecting → Bool
  | .value | .valueOrClose => true
  | _ => false

namespace Reader

variable {limit : Nat}

/-- All that a token can do to a reader that takes it. -/
inductive Moves (limit : Nat) : Reader → Token → Reader → Prop
  | scalar {fs : List Frame} {e : Expecting} {v : Json} : e.isValue = true →
      Moves limit ⟨fs, e⟩ (.scalar v) (complete v fs)
  | text {fs : List Frame} {e : Expecting} {ns : List Nat} : e.isValue = true →
      Moves limit ⟨fs, e⟩ (.text ns) (complete (.ofCodes ns) fs)
  | openArray {fs : List Frame} {e : Expecting} : e.isValue = true →
      fs.length < limit → Moves limit ⟨fs, e⟩ .openArray ⟨.array [] :: fs, .valueOrClose⟩
  | openObject {fs : List Frame} {e : Expecting} : e.isValue = true →
      fs.length < limit → Moves limit ⟨fs, e⟩ .openObject ⟨.object [] "" :: fs, .nameOrClose⟩
  | closeEmptyArray {fs : List Frame} {vs : List Json} :
      Moves limit ⟨.array vs :: fs, .valueOrClose⟩ .closeArray (complete (.arr []) fs)
  | closeEmptyObject {fs : List Frame} {ms : List (RawText × Json)} {key : RawText} :
      Moves limit ⟨.object ms key :: fs, .nameOrClose⟩ .closeObject (complete (.obj []) fs)
  | firstName {fs : List Frame} {ns : List Nat} : Moves limit ⟨fs, .nameOrClose⟩ (.text ns)
      ⟨fs.drop 1, .colon [] (.ofCodes ns)⟩
  | name {fs : List Frame} {ms : List (RawText × Json)} {ns : List Nat} : Moves limit ⟨fs, .name ms⟩ (.text ns)
      ⟨fs, .colon ms (.ofCodes ns)⟩
  | colon {fs : List Frame} {ms : List (RawText × Json)} {key : RawText} :
      Moves limit ⟨fs, .colon ms key⟩ .colon ⟨.object ms key :: fs, .value⟩
  | closeArray {fs : List Frame} {vs : List Json} :
      Moves limit ⟨.array vs :: fs, .commaOrClose⟩ .closeArray (complete (.arr vs.reverse) fs)
  | nextItem {fs : List Frame} {vs : List Json} :
      Moves limit ⟨.array vs :: fs, .commaOrClose⟩ .comma ⟨.array vs :: fs, .value⟩
  | closeObject {fs : List Frame} {ms : List (RawText × Json)} {key : RawText} :
      Moves limit ⟨.object ms key :: fs, .commaOrClose⟩ .closeObject (complete (.obj ms) fs)
  | nextMember {fs : List Frame} {ms : List (RawText × Json)} {key : RawText} :
      Moves limit ⟨.object ms key :: fs, .commaOrClose⟩ .comma ⟨fs, .name ms⟩

theorem deeper_eq_ok {inObject : Bool} {fs : List Frame} {r r' : Reader} :
    deeper limit inObject fs r = .ok r' ↔ r = r' ∧ fs.length < limit := by
  unfold deeper
  split
  next hle =>
    constructor
    · intro h
      cases h
    · rintro ⟨-, hlt⟩
      omega
  next hlt => exact ⟨fun h => ⟨Except.ok.inj h, by omega⟩, fun h => congrArg _ h.1⟩

theorem moves_of_takeValue {fs : List Frame} {e : Expecting} (he : e.isValue = true) {p : Nat}
    {t : Token} {r : Reader} (h : takeValue limit fs p t = .ok r) : Moves limit ⟨fs, e⟩ t r := by
  cases t <;> try cases h
  case openArray =>
    obtain ⟨rfl, hlt⟩ := deeper_eq_ok.1 h
    exact .openArray he hlt
  case openObject =>
    obtain ⟨rfl, hlt⟩ := deeper_eq_ok.1 h
    exact .openObject he hlt
  case scalar v => exact .scalar he
  case text ns => exact .text he

theorem takeName_eq_ok {fs : List Frame} {ms : List (RawText × Json)} {p : Nat} {t : Token} {r : Reader}
    (h : takeName fs ms p t = .ok r) :
    ∃ ns, t = .text ns ∧ r = ⟨fs, .colon ms (.ofCodes ns)⟩ := by
  cases t <;> cases h
  exact ⟨_, rfl, rfl⟩

theorem moves_of_step {r r' : Reader} {t : Token} {p : Nat} (h : r.step limit (t, p) = .ok r') :
    Moves limit r t r' := by
  obtain ⟨fs, e⟩ := r
  unfold step at h
  dsimp only at h
  split at h
  next => exact moves_of_takeValue rfl h
  next =>
    cases h
    exact .closeEmptyArray
  next => exact moves_of_takeValue rfl h
  next =>
    cases h
    exact .closeEmptyObject
  next =>
    obtain ⟨ns, rfl, rfl⟩ := takeName_eq_ok h
    exact .firstName
  next =>
    obtain ⟨ns, rfl, rfl⟩ := takeName_eq_ok h
    exact .name
  next =>
    cases h
    exact .colon
  next => cases h
  next =>
    cases t <;> cases h
    · exact .closeArray
    · exact .nextItem
  next =>
    cases t <;> cases h
    · exact .closeObject
    · exact .nextMember
  next => cases h
  next => cases h

theorem step_value {fs : List Frame} {e : Expecting} (he : e.isValue = true) {t : Token}
    (ht : t ≠ .closeArray) (p : Nat) : step limit ⟨fs, e⟩ (t, p) = takeValue limit fs p t := by
  cases e <;> cases he
  · rfl
  · cases t <;> first | exact absurd rfl ht | (rcases fs with _ | ⟨_ | _, fs⟩ <;> rfl)

theorem step_firstName (fs : List Frame) (ns : List Nat) (p : Nat) :
    step limit ⟨fs, .nameOrClose⟩ (.text ns, p) = takeName (fs.drop 1) [] p (.text ns) := by
  rcases fs with _ | ⟨_ | _, fs⟩ <;> rfl

theorem Moves.step {r r' : Reader} {t : Token} (h : Moves limit r t r') (p : Nat) : r.step limit (t, p) = .ok r' := by
  cases h with
  | scalar he => exact step_value he (by simp) p
  | text he => exact step_value he (by simp) p
  | openArray he hlt =>
    rw [step_value he (by simp)]
    exact deeper_eq_ok.2 ⟨rfl, hlt⟩
  | openObject he hlt =>
    rw [step_value he (by simp)]
    exact deeper_eq_ok.2 ⟨rfl, hlt⟩
  | firstName => exact step_firstName _ _ p
  | _ => rfl

/-- The tokens that a reader takes up to the end, and the value it then has. -/
inductive Reads (limit : Nat) : Reader → List Token → Json → Prop
  | done {fs : List Frame} {v : Json} : Reads limit ⟨fs, .nothing v⟩ [] v
  | move {r r' : Reader} {t : Token} {ts : List Token} {v : Json} : Moves limit r t r' → Reads limit r' ts v →
      Reads limit r (t :: ts) v

theorem Moves.kind {r r' : Reader} {t : Token} (h : Moves limit r t r') :
    t.isMark = true ∨ (∃ ns, t = .text ns) ∨ ∃ v, t = .scalar v := by
  cases h <;> simp [Token.isMark]

/-- After a word or numeral only a mark can be taken. -/
theorem Moves.isMark {r r' r'' : Reader} {t : Token} {v : Json} (h : Moves limit r (.scalar v) r')
    (h' : Moves limit r' t r'') : t.isMark = true := by
  cases h with
  | @scalar fs =>
    rcases fs with _ | ⟨_ | _, fs⟩ <;> cases h' <;> first | rfl | contradiction

end Reader

variable {limit : Nat}

theorem firstToken_text {p n : Nat} {c : Char} {s r : List Char} {ns : List Nat}
    (h : firstToken p c s = (.text ns, n, r)) : c = '"' ∧
      ∃ body ms, Spells body [] ms ∧ s = body ++ '"' :: r ∧ ns = ms.reverse := by
  unfold firstToken at h
  split at h
  next t ht =>
    cases h
    cases isMark_of_mark? ht
  next =>
    split at h
    next hq =>
      split at h
      next hs =>
        cases h
        obtain ⟨body, ms, hb, hs, hns, -⟩ := spells_of_quotedText hs
        exact ⟨by simpa using hq, body, ms, hb, hs, hns⟩
      next => cases h
    next =>
      split at h
      · cases h
      · split at h
        next n rest _ =>
          rcases token_cases n with ⟨v, hv⟩ | ⟨f, hf⟩
          · simp [hv] at h
          · simp [hf] at h
        next => cases h

theorem firstToken_isMark {p n : Nat} {c : Char} {s r : List Char} {t : Token}
    (h : firstToken p c s = (t, n, r)) (ht : t.isMark = true) : mark? c = some t ∧ r = s := by
  have hsome := isSome_mark?_of_firstToken (p := p) (c := c) (s := s) (by rw [h]; exact ht)
  obtain ⟨u, hu⟩ := Option.isSome_iff_exists.1 hsome
  simp only [firstToken, hu, Prod.mk.injEq] at h
  exact ⟨by rw [hu, h.1], h.2.2.symm⟩

theorem Takes.suffix {s r : List Char} (h : Takes s r) : r <:+ s := by
  obtain ⟨a, rfl, -⟩ := h
  exact List.suffix_append a r

theorem firstToken_suffix (p : Nat) (c : Char) (s : List Char) : (firstToken p c s).2.2 <:+ s := by
  unfold firstToken
  split
  · exact List.suffix_rfl
  · split
    · split
      next hs =>
        obtain ⟨body, ms, -, rfl, -⟩ := spells_of_quotedText hs
        exact (List.suffix_cons _ _).trans (List.suffix_append body _)
      next => exact List.nil_suffix
    · split
      next hl => exact (takes_takeLiteral hl).2.suffix
      next =>
        split
        next hn =>
          rcases takes_takeNumeral hn with ⟨d, t, hs, -, ht⟩ | ⟨d, t, hs, -, ht⟩
          · cases hs
            exact ht.suffix
          · cases hs
            exact ht.suffix.trans (List.suffix_cons _ _)
        next => exact List.nil_suffix

theorem length_firstToken_le (p : Nat) (c : Char) (s : List Char) :
    (firstToken p c s).2.2.length ≤ s.length :=
  (firstToken_suffix p c s).length_le

theorem ends_of_run {n p e : Nat} {s : List Char} {r r' : Reader} {v w : Json} (hn : s.length ≤ n)
    (hr : Reader.Moves limit r' (.scalar w) r) (h : r.run limit e (tokensWithin n p s) = .ok v) : Ends s := by
  intro c hc
  cases s with
  | nil => cases hc
  | cons d s =>
    obtain rfl : d = c := by simpa using hc
    cases n with
    | zero => simp at hn
    | succ n =>
      unfold isStop
      rw [Bool.or_eq_true, or_iff_not_imp_left]
      intro hspace
      rw [tokensWithin, if_neg hspace, Reader.run] at h
      split at h
      next r'' hstep => exact isSome_mark?_of_firstToken (hr.isMark (Reader.moves_of_step hstep))
      next => cases h

theorem Reader.reads_of_finish {r : Reader} {e : Nat} {v : Json} (h : r.finish e = .ok v) :
    Reads limit r [] v := by
  obtain ⟨fs, x⟩ := r
  cases x <;> cases h
  exact .done

/-- A reader that comes to a value takes the tokens of the text. -/
theorem lexes_of_run {n p e : Nat} {s : List Char} {r : Reader} {v : Json} (hn : s.length ≤ n)
    (h : r.run limit e (tokensWithin n p s) = .ok v) : ∃ ts, Lexes s ts [] ∧ Reader.Reads limit r ts v := by
  induction n generalizing p s r with
  | zero =>
    obtain rfl := List.eq_nil_of_length_eq_zero (Nat.le_zero.1 hn)
    exact ⟨[], .done, Reader.reads_of_finish h⟩
  | succ n ih =>
    cases s with
    | nil => exact ⟨[], .done, Reader.reads_of_finish h⟩
    | cons c s =>
      have hs : s.length ≤ n := Nat.le_of_succ_le_succ hn
      rw [tokensWithin] at h
      split at h
      next hspace =>
        obtain ⟨ts, hl, hr⟩ := ih hs h
        exact ⟨ts, .space hspace hl, hr⟩
      next =>
        rcases hf : firstToken p c s with ⟨t, next, rest⟩
        have hrest : rest.length ≤ n := by
          have hle := length_firstToken_le p c s
          rw [hf] at hle
          exact Nat.le_trans hle hs
        rw [hf, Reader.run] at h
        split at h
        next r' hstep =>
          have hmove := Reader.moves_of_step hstep
          obtain ⟨ts, hl, hr⟩ := ih hrest h
          refine ⟨t :: ts, ?_, .move hmove hr⟩
          rcases hmove.kind with hmark | ⟨ns, rfl⟩ | ⟨w, rfl⟩
          · obtain ⟨hm, rfl⟩ := firstToken_isMark hf hmark
            exact .mark hm hl
          · obtain ⟨rfl, body, ms, hb, rfl, rfl⟩ := firstToken_text hf
            exact .text hb hl
          · have hends := ends_of_run hrest hmove h
            obtain ⟨a, rfl, ha⟩ := isAtom_of_firstToken hf hends
            exact .atom ha hends hl
        next => cases h

theorem isSpace_of_isAtomChar {c : Char} (h : isAtomChar c = true) :
    isSpace c = false ∧ mark? c = none ∧ c ≠ '"' := by
  have hstop : isStop c = false := by
    cases hs : isStop c with
    | false => rfl
    | true =>
      rw [isAtomChar_of_isStop hs] at h
      cases h
  simp only [isStop, Bool.or_eq_false_iff, Option.isSome_eq_false_iff, Option.isNone_iff_eq_none] at hstop
  refine ⟨hstop.1, hstop.2, ?_⟩
  rintro rfl
  cases h

/-- One token in front of what is read on. -/
theorem tokensWithin_cons {n p q : Nat} {c : Char} {s r : List Char} {t : Token} {ts : List Token}
    {rest : List Char} (hc : isSpace c = false) (hf : firstToken p c s = (t, q, rest))
    (h : ∃ l m q', tokensWithin n q rest = l ++ tokensWithin m q' r ∧ l.map (·.1) = ts ∧ r.length ≤ m) :
    ∃ l m q', tokensWithin (n + 1) p (c :: s) = l ++ tokensWithin m q' r ∧ l.map (·.1) = t :: ts ∧
      r.length ≤ m := by
  obtain ⟨l, m, q', h, rfl, hm⟩ := h
  refine ⟨(t, p) :: l, m, q', ?_, rfl, hm⟩
  rw [tokensWithin, hc, hf]
  simp [h]

/-- The tokens that a text breaks up into come first among its tokens, and then those of the rest. -/
theorem Lexes.tokens {s r : List Char} {ts : List Token} (h : Lexes s ts r) {n : Nat}
    (hn : s.length ≤ n) (p : Nat) : ∃ l m q, tokensWithin n p s = l ++ tokensWithin m q r ∧
      l.map (·.1) = ts ∧ r.length ≤ m := by
  induction h generalizing n p with
  | done => exact ⟨[], n, p, rfl, rfl, hn⟩
  | space hc hs ih =>
    cases n with
    | zero => simp at hn
    | succ n =>
      obtain ⟨l, m, q, h, hl, hm⟩ := ih (Nat.le_of_succ_le_succ hn) (p + 1)
      exact ⟨l, m, q, by rw [tokensWithin, if_pos hc, h], hl, hm⟩
  | @mark c t s r ts ht hs ih =>
    cases n with
    | zero => simp at hn
    | succ n =>
      have hf : firstToken p c s = (t, p + 1, s) := by simp only [firstToken, ht]
      exact tokensWithin_cons (isSpace_of_mark? ht) hf (ih (Nat.le_of_succ_le_succ hn) _)
  | @text body s r ns ts hb hs ih =>
    cases n with
    | zero => simp at hn
    | succ n =>
      have hf : firstToken p '"' (body ++ '"' :: s) =
          (.text ns.reverse, p + 1 + body.length + 1, s) := by
        have hm : mark? '"' = none := by decide
        simp only [firstToken, hm, beq_self_eq_true, if_true, hb.quotedText]
      have hlen : s.length ≤ n := by
        simp only [List.length_cons, List.length_append] at hn
        omega
      exact tokensWithin_cons (by decide) hf (ih hlen _)
  | @atom c a s r v ts ha he hs ih =>
    cases n with
    | zero => simp at hn
    | succ n =>
      obtain ⟨q, hf⟩ := ha.token p s he
      have hlen : s.length ≤ n := by
        simp only [List.length_cons, List.length_append] at hn
        omega
      exact tokensWithin_cons (isSpace_of_isAtomChar (ha.chars c List.mem_cons_self)).1 hf (ih hlen _)

theorem Reader.Reads.run {r : Reader} {l : List (Token × Nat)} {v : Json} (h : Reads limit r (l.map (·.1)) v)
    (e : Nat) : r.run limit e l = .ok v := by
  induction l generalizing r with
  | nil =>
    cases h
    rfl
  | cons t l ih =>
    rw [List.map_cons] at h
    cases h with
    | move hm hr =>
      rw [Reader.run, hm.step t.2]
      exact ih hr

/-- A text is read if it breaks up into tokens that the reader takes. -/
theorem readDecoded_eq_ok {s : List Char} {v : Json} :
    readDecoded limit s = .ok v ↔ ∃ ts, Lexes s ts [] ∧ Reader.Reads limit .start ts v := by
  constructor
  · exact lexes_of_run (Nat.le_refl _)
  · rintro ⟨ts, hl, hr⟩
    obtain ⟨l, m, q, h, rfl, -⟩ := hl.tokens (Nat.le_refl _) 0
    rw [readDecoded, Json.tokens, h]
    simpa [tokensWithin] using hr.run s.length

end Solwright.Json
