import Mathlib.Tactic.ByContra
import Solwright.Proofs.Json.Lexing

/-! The text of an object. It begins with the brace that opens the object and ends with the one that
closes it, white space apart, and it breaks up in the same way whatever follows it. -/

namespace Solwright.Json

open Solwright.Number Solwright.Text Reader

variable {limit : Nat} {s r : List Char} {ts : List Token}

/-- A value that a single word or numeral can stand for. -/
def isScalar : Json → Bool
  | .null | .bool _ | .int _ | .float _ => true
  | _ => false

theorem isScalar_of_mem_literals : ∀ l ∈ literals, isScalar l.2 = true := by
  simp [literals, isScalar]

theorem isScalar_of_token {n : NumeralParts} {v : Json} (h : n.token = .scalar v) :
    isScalar v = true := by
  unfold NumeralParts.token at h
  split at h
  · split at h
    · cases h
    · cases h
      rfl
  · cases h
    rfl

/-- A word or numeral has the value of a literal or of the parts of a numeral. -/
theorem scalar_of_firstToken {p n : Nat} {c : Char} {v : Json} (h : firstToken p c s = (.scalar v, n, r)) :
    (∃ l ∈ literals, l.2 = v) ∨ ∃ parts, takeNumeral? (c :: s) = some (parts, r) ∧ parts.token = .scalar v := by
  unfold firstToken at h
  split at h
  next t ht =>
    cases h
    cases isMark_of_mark? ht
  next =>
    split at h
    · split at h <;> cases h
    · split at h
      next hw =>
        cases h
        obtain ⟨l, hl, hr⟩ := List.exists_of_findSome?_eq_some hw
        obtain ⟨r', -, hr'⟩ := Option.map_eq_some_iff.1 hr
        exact .inl ⟨l, hl, (Prod.mk.inj hr').1⟩
      next =>
        split at h
        next parts rest hparts =>
          obtain ⟨hv, -, rfl⟩ : parts.token = .scalar v ∧ p + parts.width = n ∧ rest = r := by simpa using h
          exact .inr ⟨parts, hparts, hv⟩
        next => cases h

theorem IsAtom.scalar {c : Char} {a : List Char} {v : Json} (h : IsAtom c a v) : (∃ l ∈ literals, l.2 = v) ∨
    ∃ parts, takeNumeral? (c :: a) = some (parts, []) ∧ parts.token = .scalar v := by
  obtain ⟨n, hf⟩ := h.token 0 [] (by simp [Ends])
  rw [List.append_nil] at hf
  exact scalar_of_firstToken hf

theorem IsAtom.isScalar {c : Char} {a : List Char} {v : Json} (h : IsAtom c a v) :
    isScalar v = true := by
  rcases h.scalar with ⟨l, hl, rfl⟩ | ⟨parts, -, hv⟩
  · exact isScalar_of_mem_literals l hl
  · exact isScalar_of_token hv

/-- A value that is no object. -/
def NoObject (v : Json) : Prop := ∀ ms, v ≠ .obj ms

theorem noObject_of_isScalar {v : Json} (h : isScalar v = true) : NoObject v := by
  rintro ms rfl
  cases h

theorem noObject_ofCodes (ns : List Nat) : NoObject (ofCodes ns) := by
  intro ms
  unfold ofCodes
  split <;> simp

/-- The words and numerals among the tokens of a text have every property that such values have. -/
theorem Lexes.scalars {P : Json → Prop} (hatom : ∀ c a v, IsAtom c a v → P v) (h : Lexes s ts r) :
    ∀ v, .scalar v ∈ ts → P v := by
  induction h with
  | done => simp
  | space hc hs ih => exact ih
  | mark ht hs ih =>
    intro v hv
    rcases List.mem_cons.1 hv with rfl | hv
    · cases isMark_of_mark? ht
    · exact ih v hv
  | text hb hs ih =>
    intro v hv
    rcases List.mem_cons.1 hv with hv | hv
    · cases hv
    · exact ih v hv
  | atom ha he hs ih =>
    intro v hv
    rcases List.mem_cons.1 hv with hv | hv
    · cases hv
      exact hatom _ _ _ ha
    · exact ih v hv

/-- No token but the marks can make an object. -/
theorem Lexes.noObject (h : Lexes s ts r) : ∀ v, .scalar v ∈ ts → NoObject v :=
  h.scalars fun _ _ _ ha => noObject_of_isScalar ha.isScalar

/-- A reader in an array that is not inside anything else, or with a value that is no object. -/
def InArray (r : Reader) : Prop :=
  (∃ vs, r.frames.getLast? = some (.array vs) ∧ (∀ v, r.expecting ≠ .nothing v) ∧
      (r.expecting = .nameOrClose → 2 ≤ r.frames.length)) ∨
    ∃ v, r = ⟨[], .nothing v⟩ ∧ NoObject v

theorem inArray_complete {fs : List Frame} {vs : List Json} (h : fs.getLast? = some (.array vs))
    (v : Json) : InArray (complete v fs) := by
  rcases fs with _ | ⟨f, _ | ⟨f', fs⟩⟩
  · cases h
  · obtain rfl : f = .array vs := by simpa using h
    exact .inl ⟨v :: vs, rfl, by simp [complete], by simp [complete]⟩
  · have hlast : (f' :: fs).getLast? = some (.array vs) := by simpa [List.getLast?_cons_cons] using h
    cases f with
    | array items => exact .inl ⟨vs, by simpa [complete] using hlast, by simp [complete], by simp [complete]⟩
    | object ms key => exact .inl ⟨vs, by simpa [complete] using hlast, by simp [complete], by simp [complete]⟩

theorem getLast?_cons {f : Frame} {fs : List Frame} {vs : List Json}
    (h : fs.getLast? = some (.array vs)) : (f :: fs).getLast? = some (.array vs) := by
  cases fs with
  | nil => cases h
  | cons f' fs => rwa [List.getLast?_cons_cons]

/-- What is under the innermost frame, which is not the array itself. -/
theorem getLast?_tail {ms : List (RawText × Json)} {key : RawText} {fs : List Frame} {vs : List Json}
    (h : (Frame.object ms key :: fs).getLast? = some (.array vs)) : fs.getLast? = some (.array vs) := by
  cases fs with
  | nil => simp at h
  | cons f fs => rwa [List.getLast?_cons_cons] at h

theorem inArray_close {us vs : List Json} {fs : List Frame}
    (h : (Frame.array us :: fs).getLast? = some (.array vs)) {v : Json} (hv : NoObject v) :
    InArray (complete v fs) := by
  cases fs with
  | nil => exact .inr ⟨v, rfl, hv⟩
  | cons f fs =>
    rw [List.getLast?_cons_cons] at h
    exact inArray_complete h v

theorem inArray_moves {r r' : Reader} {t : Token} (hr : InArray r) (h : Moves limit r t r') : InArray r' := by
  rcases hr with ⟨vs, hlast, -, hname⟩ | ⟨v, rfl, hv⟩
  · cases h with
    | scalar he => exact inArray_complete hlast _
    | text he => exact inArray_complete hlast _
    | openArray he hlt => exact .inl ⟨vs, getLast?_cons hlast, by simp, by simp⟩
    | @openObject fs e he hlt =>
      refine .inl ⟨vs, getLast?_cons hlast, by simp, fun _ => ?_⟩
      have hne : fs ≠ [] := by
        rintro rfl
        cases hlast
      have hpos := List.length_pos_iff.2 hne
      simp only [List.length_cons]
      omega
    | closeEmptyArray => exact inArray_close hlast (by simp [NoObject])
    | closeEmptyObject => exact inArray_complete (getLast?_tail hlast) _
    | @firstName fs ns =>
      have hlen := hname rfl
      rcases fs with _ | ⟨f, _ | ⟨f', fs⟩⟩
      · simp at hlen
      · simp at hlen
      · refine .inl ⟨vs, ?_, by simp, by simp⟩
        rwa [List.getLast?_cons_cons] at hlast
    | name => exact .inl ⟨vs, hlast, by simp, by simp⟩
    | colon => exact .inl ⟨vs, getLast?_cons hlast, by simp, by simp⟩
    | closeArray => exact inArray_close hlast (by simp [NoObject])
    | nextItem => exact .inl ⟨vs, hlast, by simp, by simp⟩
    | closeObject => exact inArray_complete (getLast?_tail hlast) _
    | nextMember => exact .inl ⟨vs, getLast?_tail hlast, by simp, by simp⟩
  · cases h <;> contradiction

theorem noObject_of_inArray {r : Reader} {v : Json} (hr : InArray r) (h : Reads limit r ts v) : NoObject v := by
  induction h with
  | @done fs v =>
    rcases hr with ⟨vs, -, hv, -⟩ | ⟨w, hw, hno⟩
    · exact absurd rfl (hv v)
    · cases hw
      exact hno
  | move hm hs ih => exact ih (inArray_moves hr hm)

/-- What does not begin with the brace of an object is none. -/
theorem noObject_of_reads {t : Token} {v : Json} (hts : ∀ v, .scalar v ∈ t :: ts → NoObject v)
    (h : Reads limit .start (t :: ts) v) (ht : t ≠ .openObject) : NoObject v := by
  cases h with
  | @move _ r' _ _ _ hm hs =>
    refine noObject_of_inArray (r := r') ?_ hs
    cases hm with
    | scalar he => exact .inr ⟨_, rfl, hts _ List.mem_cons_self⟩
    | text he => exact .inr ⟨_, rfl, noObject_ofCodes _⟩
    | openArray he hlt => exact .inl ⟨[], rfl, by simp, by simp⟩
    | openObject he hlt => exact absurd rfl ht

theorem eq_of_complete {v w : Json} {fs : List Frame} (h : (complete v fs).expecting = .nothing w) :
    v = w := by
  rcases fs with _ | ⟨_ | _, fs⟩
  · cases h
    rfl
  · cases h
  · cases h

theorem closeObject_of_moves {r r' : Reader} {t : Token} {ms : List (RawText × Json)}
    (ht : ∀ v, t = .scalar v → NoObject v) (h : Moves limit r t r') (hr : r'.expecting = .nothing (.obj ms)) :
    t = .closeObject := by
  cases h with
  | scalar he => exact absurd (eq_of_complete hr) (ht _ rfl ms)
  | text he => exact absurd (eq_of_complete hr) (noObject_ofCodes _ ms)
  | closeEmptyArray => cases eq_of_complete hr
  | closeArray => cases eq_of_complete hr
  | closeEmptyObject => rfl
  | closeObject => rfl
  | _ => cases hr

/-- The last token of an object closes it. -/
theorem closeObject_of_reads {r : Reader} {ms : List (RawText × Json)}
    (hts : ∀ v, .scalar v ∈ ts → NoObject v) (h : Reads limit r ts (.obj ms)) (hne : ts ≠ []) :
    ∃ us, ts = us ++ [.closeObject] := by
  induction ts generalizing r with
  | nil => exact absurd rfl hne
  | cons t ts ih =>
    cases h with
    | @move _ r' _ _ _ hm hs =>
      by_cases hnil : ts = []
      · subst hnil
        have hr : r'.expecting = .nothing (.obj ms) := by
          cases hs
          rfl
        exact ⟨[], by rw [closeObject_of_moves (fun v hv => hts v (hv ▸ List.mem_cons_self)) hm hr]; rfl⟩
      · obtain ⟨us, rfl⟩ := ih (fun v hv => hts v (List.mem_cons_of_mem t hv)) hs hnil
        exact ⟨t :: us, rfl⟩

/-- A text that breaks up in the same way whatever follows it, from the brace that opens an object to
the one that closes it. -/
structure ObjectText (o : List Char) (ts : List Token) : Prop where
  braces : ∃ mid, o = '{' :: (mid ++ ['}'])
  tokens : ∃ us, ts = .openObject :: us ++ [.closeObject]
  lexes : ∀ r, Lexes (o ++ r) ts r

theorem spaces_of_lexes_nil (h : Lexes s [] r) : ∃ sp, s = sp ++ r ∧ ∀ c ∈ sp, isSpace c = true := by
  generalize hts : ([] : List Token) = ts at h
  induction h with
  | done => exact ⟨[], rfl, by simp⟩
  | @space c s r ts hc hs ih =>
    obtain ⟨sp, rfl, hsp⟩ := ih hts
    exact ⟨c :: sp, rfl, by simpa [hc] using hsp⟩
  | _ => cases hts

theorem eq_of_mark?_closeObject {c : Char} (h : mark? c = some .closeObject) : c = '}' := by
  unfold mark? at h
  split_ifs at h with h1 h2 h3 h4 h5 h6 <;> cases h
  exact beq_iff_eq.1 h4

theorem eq_of_mark?_openObject {c : Char} (h : mark? c = some .openObject) : c = '{' := by
  unfold mark? at h
  split_ifs at h with h1 h2 h3 h4 h5 h6 <;> cases h
  exact beq_iff_eq.1 h3

theorem Ends.append_brace {o x : List Char} (h : Ends (o ++ '}' :: x)) (y : List Char) :
    Ends (o ++ '}' :: y) := by
  cases o with
  | nil => exact h
  | cons c o => exact h

/-- Up to a mark that closes an object, a text breaks up in the same way whatever follows. -/
theorem lexes_closeObject {us : List Token} (h : Lexes s (us ++ [.closeObject]) r) :
    ∃ o sp, s = o ++ '}' :: (sp ++ r) ∧ (∀ c ∈ sp, isSpace c = true) ∧
      ∀ q, Lexes (o ++ '}' :: q) (us ++ [.closeObject]) q := by
  generalize hts : us ++ [Token.closeObject] = ts at h
  induction h generalizing us with
  | done => simp at hts
  | @space c s r ts hc hs ih =>
    obtain ⟨o, sp, rfl, hsp, ho⟩ := ih hts
    exact ⟨c :: o, sp, rfl, hsp, fun q => .space hc (ho q)⟩
  | @mark c t s r ts ht hs ih =>
    cases us with
    | nil =>
      obtain ⟨rfl, rfl⟩ : Token.closeObject = t ∧ [] = ts := by simpa using hts
      obtain ⟨sp, rfl, hsp⟩ := spaces_of_lexes_nil hs
      obtain rfl := eq_of_mark?_closeObject ht
      exact ⟨[], sp, rfl, hsp, fun q => .mark ht .done⟩
    | cons u us =>
      obtain ⟨rfl, hus⟩ := List.cons.inj hts
      obtain ⟨o, sp, rfl, hsp, ho⟩ := ih hus
      exact ⟨c :: o, sp, rfl, hsp, fun q => .mark ht (ho q)⟩
  | @text body s r ns ts hb hs ih =>
    cases us with
    | nil => simp at hts
    | cons u us =>
      obtain ⟨rfl, hus⟩ := List.cons.inj hts
      obtain ⟨o, sp, rfl, hsp, ho⟩ := ih hus
      refine ⟨'"' :: (body ++ '"' :: o), sp, by simp, hsp, fun q => ?_⟩
      simpa using Lexes.text hb (ho q)
  | @atom c a s r v ts ha he hs ih =>
    cases us with
    | nil => simp at hts
    | cons u us =>
      obtain ⟨rfl, hus⟩ := List.cons.inj hts
      obtain ⟨o, sp, rfl, hsp, ho⟩ := ih hus
      refine ⟨c :: (a ++ o), sp, by simp, hsp, fun q => ?_⟩
      simpa using Lexes.atom ha (he.append_brace q) (ho q)

/-- A text that breaks up into the tokens of an object is that of one, white space apart. -/
theorem objectText_of_lexes {us : List Token} (h : Lexes s (.openObject :: us ++ [.closeObject]) []) :
    ∃ sp o sp', s = sp ++ (o ++ sp') ∧ (∀ c ∈ sp, isSpace c = true) ∧
      (∀ c ∈ sp', isSpace c = true) ∧ ObjectText o (.openObject :: us ++ [.closeObject]) := by
  generalize hts : .openObject :: us ++ [.closeObject] = ts at h
  generalize hr : ([] : List Char) = r at h
  induction h with
  | done => simp at hts
  | @space c s r ts hc hs ih =>
    obtain ⟨sp, o, sp', rfl, hsp, hsp', ho⟩ := ih hts hr
    exact ⟨c :: sp, o, sp', rfl, by simpa [hc] using hsp, hsp', ho⟩
  | @mark c t s r ts ht hs ih =>
    obtain ⟨rfl, rfl⟩ := List.cons.inj hts
    obtain rfl := eq_of_mark?_openObject ht
    subst hr
    obtain ⟨o, sp, rfl, hsp, ho⟩ := lexes_closeObject hs
    refine ⟨[], '{' :: (o ++ ['}']), sp, by simp, by simp, hsp, ⟨o, rfl⟩, ⟨_, rfl⟩, fun q => ?_⟩
    simpa using Lexes.mark ht (ho q)
  | text hb hs ih => simp at hts
  | atom ha he hs ih => simp at hts

/-- What is read as an object is the text of one, white space apart. -/
theorem objectText_of_read {t : List Char} {ms : List (RawText × Json)}
    (h : read limit t = .ok (.obj ms)) : ∃ sp o sp' ts, t = sp ++ (o ++ sp') ∧
      (∀ c ∈ sp, isSpace c = true) ∧ (∀ c ∈ sp', isSpace c = true) ∧ ObjectText o ts ∧
      Reads limit .start ts (.obj ms) := by
  unfold read at h
  split at h
  · cases h
  obtain ⟨ts, hl, hr⟩ := readDecoded_eq_ok.1 h
  cases ts with
  | nil => cases hr
  | cons t ts =>
    obtain rfl : t = .openObject := by
      by_contra ht
      exact noObject_of_reads hl.noObject hr ht ms rfl
    obtain ⟨us, hus⟩ := closeObject_of_reads hl.noObject hr (by simp)
    cases us with
    | nil => cases hus
    | cons u us =>
      obtain ⟨rfl, -⟩ := List.cons.inj hus
      rw [hus] at hl hr
      obtain ⟨sp, o, sp', hs, hsp, hsp', ho⟩ := objectText_of_lexes hl
      exact ⟨sp, o, sp', _, hs, hsp, hsp', ho, hr⟩

/-- The text of an object is read as the object. -/
theorem ObjectText.read {o : List Char} {ts : List Token} {v : Json} (ho : ObjectText o ts)
    (hr : Reads limit .start ts v) : read limit o = .ok v := by
  obtain ⟨⟨mid, rfl⟩, -, hl⟩ := ho
  have hl := hl []
  rw [List.append_nil] at hl
  rw [Json.read, if_neg (by simp)]
  exact readDecoded_eq_ok.2 ⟨ts, hl, hr⟩

theorem tokensWithin_ne_nil {n : Nat} (hn : s.length ≤ n) (p : Nat) (h : ∃ c ∈ s, isSpace c = false) :
    tokensWithin n p s ≠ [] := by
  induction s generalizing n p with
  | nil => simp at h
  | cons c s ih =>
    cases n with
    | zero => simp at hn
    | succ n =>
      rw [tokensWithin]
      split
      next hc =>
        refine ih (Nat.le_of_succ_le_succ hn) _ ?_
        obtain ⟨d, hd, hspace⟩ := h
        rcases List.mem_cons.1 hd with rfl | hd
        · rw [hc] at hspace
          cases hspace
        · exact ⟨d, hd, hspace⟩
      next => simp

/-- After a complete value nothing is taken. -/
theorem run_of_reads {q : Reader} {l l' : List (Token × Nat)} {v : Json} (h : Reads limit q (l.map (·.1)) v)
    (hl' : l' ≠ []) (e : Nat) : ∃ p, q.run limit e (l ++ l') = .error (.extraData p) := by
  induction l generalizing q with
  | nil =>
    cases h
    obtain ⟨t, l', rfl⟩ := List.exists_cons_of_ne_nil hl'
    exact ⟨t.2, rfl⟩
  | cons t l ih =>
    rw [List.map_cons] at h
    cases h with
    | move hm hr =>
      obtain ⟨p, hp⟩ := ih hr
      exact ⟨p, by rw [List.cons_append, Reader.run, hm.step t.2]; exact hp⟩

/-- Anything but white space after an object is a fault. -/
theorem ObjectText.read_extra {o w : List Char} {v : Json} (ho : ObjectText o ts)
    (hr : Reads limit .start ts v) (hw : ∃ c ∈ w, isSpace c = false) :
    ∃ p, Json.read limit (o ++ w) = .error (.extraData p) := by
  obtain ⟨l, m, q, htokens, rfl, hm⟩ := (ho.lexes w).tokens (Nat.le_refl _) 0
  obtain ⟨p, hp⟩ := run_of_reads hr (tokensWithin_ne_nil hm q hw) (o ++ w).length
  obtain ⟨mid, rfl⟩ := ho.braces
  refine ⟨p, ?_⟩
  rw [Json.read, if_neg (by simp), readDecoded, Json.tokens, htokens, hp]

theorem brace_of_lexes {c : Char} (h : Lexes (c :: s) (.openObject :: ts) r) (hc : isSpace c = false) :
    c = '{' := by
  cases h with
  | space hspace hs =>
    rw [hc] at hspace
    cases hspace
  | mark ht hs => exact eq_of_mark?_openObject ht

/-- What begins with neither white space nor an opening brace is no object. -/
theorem noObject_of_read {c : Char} {v : Json} (h : read limit (c :: s) = .ok v) (hc : isSpace c = false)
    (hbrace : c ≠ '{') : NoObject v := by
  unfold read at h
  split at h
  · cases h
  obtain ⟨ts, hl, hr⟩ := readDecoded_eq_ok.1 h
  cases ts with
  | nil => cases hr
  | cons t ts =>
    refine noObject_of_reads hl.noObject hr ?_
    rintro rfl
    exact hbrace (brace_of_lexes hl hc)

end Solwright.Json
