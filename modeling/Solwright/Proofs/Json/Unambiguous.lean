import Solwright.Proofs.Json.Proper
import Solwright.Proofs.Number.Written

/-! No two values are written alike. What is written of a value also tells where it ends, as long as what follows
begins with a mark, so the items of arrays and the members of objects can be told apart one after the other. -/

namespace Solwright.Json

open Number Text

variable {v w : Json} {a b r r' : List Char}

section Atoms

/-- The characters of a whole number. -/
def isWholeChar (c : Char) : Bool := c.isDigit || c == '-'

/-- The value that a word or numeral is written for. A numeral with a point or a power is a double. -/
def atomOf? (s : List Char) : Option Json :=
  if s.all isWholeChar then
    (decimal? asciiDigit? s).map fun d => .int (if d.negative then -d.coefficient else d.coefficient)
  else ((binary64? s).map .float).or (literals.lookup s)

theorem atomOf?_integerText (n : Int) : atomOf? (integerText n).toList = some (.int n) := by
  have hdigits : ∀ c ∈ Nat.toDigits 10 n.natAbs, c.isDigit = true := isDigit_decimalDigits n.natAbs
  have hwhole : ∀ c ∈ Nat.toDigits 10 n.natAbs, isWholeChar c = true :=
    fun c hc => Bool.or_eq_true_iff.2 (.inl (hdigits c hc))
  have hunsigned := IsUnsigned.whole hdigits Nat.toDigits_ne_nil .none
  rw [List.append_nil, Nat.ofDigitChars_ten_toDigits] at hunsigned
  obtain ⟨hplain, hminus⟩ := hunsigned.decimal?
  rw [integerText_eq]
  split
  next hn =>
    have hvalue : (n.natAbs : Int) = n := Int.natAbs_of_nonneg hn
    rw [atomOf?, if_pos (List.all_eq_true.2 hwhole), hplain, Option.map_some, if_neg Bool.false_ne_true, hvalue]
  next hn =>
    have hvalue : -(n.natAbs : Int) = n := by omega
    have hall : ∀ c ∈ '-' :: Nat.toDigits 10 n.natAbs, isWholeChar c = true :=
      List.forall_mem_cons.2 ⟨rfl, hwhole⟩
    rw [atomOf?, if_pos (List.all_eq_true.2 hall), hminus, Option.map_some, if_pos rfl, hvalue]

/-- A double is never written like a whole number. -/
theorem exists_not_isWholeChar (x : Binary64) : ∃ c ∈ x.text specialNames, isWholeChar c = false := by
  cases x with
  | nan => exact ⟨'N', by decide, rfl⟩
  | infinite s => exact ⟨'I', by cases s <;> decide, rfl⟩
  | finite s m e h =>
    obtain ⟨d, hd, -⟩ := text_value (shortestNumeral m e)
    rcases hd.mark with hmark | hmark
    · exact ⟨'.', List.mem_append_right _ hmark, rfl⟩
    · exact ⟨'e', List.mem_append_right _ hmark, rfl⟩

theorem atomOf?_text (x : Binary64) : atomOf? (x.text specialNames) = some (.float x) := by
  obtain ⟨c, hc, hmark⟩ := exists_not_isWholeChar x
  have hall : ¬(x.text specialNames).all isWholeChar = true := by
    intro hall
    rw [List.all_eq_true.1 hall c hc] at hmark
    cases hmark
  rw [atomOf?, if_neg hall, Binary64.binary64?_text]
  rfl

/-- A word or numeral gives back the value that it is written for. -/
theorem atomOf?_write (h : isScalar v = true) : atomOf? (write v) = some v := by
  cases v with
  | null => rfl
  | bool b => cases b <;> rfl
  | int n => exact atomOf?_integerText n
  | float x => exact atomOf?_text x
  | _ => cases h

theorem isAtomChar_of_isPower {k : Int} (h : IsPower a k) : ∀ c ∈ a, isAtomChar c = true := by
  cases h with
  | none => exact nofun
  | signed negative he hds _ =>
    have hdigits := fun c hc => isAtomChar_of_isDigit (hds c hc)
    refine List.forall_mem_cons.2 ⟨?_, List.forall_mem_cons.2 ⟨?_, hdigits⟩⟩
    · rcases he with rfl | rfl <;> rfl
    · cases negative <;> rfl

theorem isAtomChar_of_isUnsigned {d : Decimal} (h : IsUnsigned a d) : ∀ c ∈ a, isAtomChar c = true := by
  cases h with
  | whole ha _ hp =>
    exact List.forall_mem_append.2 ⟨fun c hc => isAtomChar_of_isDigit (ha c hc), isAtomChar_of_isPower hp⟩
  | point ha _ hb hp =>
    exact List.forall_mem_append.2 ⟨fun c hc => isAtomChar_of_isDigit (ha c hc), List.forall_mem_cons.2 ⟨rfl,
      List.forall_mem_append.2 ⟨fun c hc => isAtomChar_of_isDigit (hb c hc), isAtomChar_of_isPower hp⟩⟩⟩

theorem isAtomChar_of_mem_write (h : isScalar v = true) : ∀ c ∈ write v, isAtomChar c = true := by
  cases v with
  | null => exact List.all_eq_true.1 rfl
  | bool b => cases b <;> exact List.all_eq_true.1 rfl
  | int n =>
    have hdigits : ∀ c ∈ Nat.toDigits 10 n.natAbs, isAtomChar c = true :=
      fun c hc => isAtomChar_of_isDigit (isDigit_decimalDigits _ c hc)
    rw [write, integerText_eq]
    split
    · exact hdigits
    · exact List.forall_mem_cons.2 ⟨rfl, hdigits⟩
  | float x =>
    cases x with
    | nan => exact List.all_eq_true.1 rfl
    | infinite s => cases s <;> exact List.all_eq_true.1 rfl
    | finite s m e _ =>
      obtain ⟨d, hd, -⟩ := text_value (shortestNumeral m e)
      refine List.forall_mem_append.2 ⟨?_, isAtomChar_of_isUnsigned hd.unsigned⟩
      cases s <;> exact List.all_eq_true.1 rfl
  | _ => cases h

/-- Where a run of a class ends is told from the text. -/
theorem append_inj_of_forall {α : Type} {p : α → Bool} {a b r r' : List α} (ha : ∀ c ∈ a, p c = true)
    (hb : ∀ c ∈ b, p c = true)
    (hr : r.head?.any p = false) (hr' : r'.head?.any p = false) (h : a ++ r = b ++ r') : a = b ∧ r = r' := by
  have htake := congrArg (List.takeWhile p) h
  rw [List.takeWhile_append_of_pos ha, List.takeWhile_append_of_pos hb, takeWhile_of_head hr, takeWhile_of_head hr',
    List.append_nil, List.append_nil] at htake
  subst htake
  exact ⟨rfl, List.append_cancel_left h⟩

theorem Ends.isAtomChar (h : Ends r) : r.head?.any isAtomChar = false := by
  cases r with
  | nil => rfl
  | cons c r => exact isAtomChar_of_isStop (h c rfl)

theorem scalar_inj (hv : isScalar v = true) (hw : isScalar w = true) (hr : Ends r) (hr' : Ends r')
    (h : write v ++ r = write w ++ r') : v = w ∧ r = r' := by
  obtain ⟨hwrite, hrest⟩ := append_inj_of_forall (isAtomChar_of_mem_write hv) (isAtomChar_of_mem_write hw)
    hr.isAtomChar hr'.isAtomChar h
  refine ⟨?_, hrest⟩
  rw [← Option.some_inj, ← atomOf?_write hv, hwrite, atomOf?_write hw]

end Atoms

section Texts

theorem writeText_ofList {ns : List Nat} (h : ns.any isHalf = false) :
    writeText (String.ofList (shownCodes ns)) = writeCodes ns := by
  have hcode : ∀ n ∈ ns, writeChar (shownCode n) = writeCode n := by
    intro n hn
    have hhalf := List.any_eq_false.1 h n hn
    rw [writeCode, shownCode, if_neg hhalf, if_neg hhalf]
  rw [writeText, writeCodes, String.toList_ofList, shownCodes, List.flatMap_map, List.flatMap_congr hcode]

theorem write_ofCodes (ns : List Nat) : write (ofCodes ns) = writeCodes ns := by
  unfold ofCodes
  split
  next => rw [write]
  next h => rw [write, writeText_ofList (Bool.eq_false_iff.2 h)]

theorem writeCodes_inj {ns ms : List Nat} (hns : AreCodes ns) (hms : AreCodes ms)
    (h : writeCodes ns ++ r = writeCodes ms ++ r') : ns = ms ∧ r = r' := by
  simp only [writeCodes, List.cons_append, List.append_assoc, List.nil_append, List.cons.injEq, true_and] at h
  exact codes_inj hns hms h

/-- A name is written as the text that it is. -/
theorem writeRaw_eq (s : RawText) : writeRaw s = write s.json := by
  cases s <;> rfl

end Texts

section Separated

variable {α : Type} {f : α → List Char} {P : α → Prop}

/-- What is written of something tells which of its like it is, and also where it ends, if a stop follows it. -/
def Told (f : α → List Char) (P : α → Prop) (x : α) : Prop :=
  ∀ y, P y → ∀ r r', Ends r → Ends r' → f x ++ r = f y ++ r' → x = y ∧ r = r'

variable {xs ys : List α} {close : Char}

theorem commaSeparated_cons (p : List Char) (ps : List (List Char)) :
    commaSeparated (p :: ps) = p ++ ps.flatMap (',' :: ' ' :: ·) := by
  induction ps generalizing p with
  | nil => simp [commaSeparated]
  | cons q ps ih =>
    rw [commaSeparated.eq_3 _ _ (List.cons_ne_nil q ps), ih, List.flatMap_cons]
    rfl

theorem ends_cons {c : Char} (h : isStop c = true) (s : List Char) : Ends (c :: s) := by
  rintro d hd
  obtain rfl := Option.some.inj hd
  exact h

theorem ends_tail (hclose : isStop close = true) (ps : List (List Char)) (s : List Char) :
    Ends (ps.flatMap (',' :: ' ' :: ·) ++ close :: s) := by
  cases ps with
  | nil => exact ends_cons hclose s
  | cons p ps => exact ends_cons rfl _

/-- What stands after a first one is told one by one, up to the mark that closes it all. -/
theorem told_tail (hclose : isStop close = true) (hcomma : close ≠ ',') (hxs : ∀ x ∈ xs, Told f P x)
    (hys : ∀ y ∈ ys, P y) (h : (xs.map f).flatMap (',' :: ' ' :: ·) ++ close :: r =
      (ys.map f).flatMap (',' :: ' ' :: ·) ++ close :: r') : xs = ys ∧ r = r' := by
  induction xs generalizing ys with
  | nil =>
    cases ys with
    | nil => exact ⟨rfl, (List.cons.inj h).2⟩
    | cons y ys => exact absurd (List.cons.inj h).1 hcomma
  | cons x xs ih =>
    cases ys with
    | nil => exact absurd (List.cons.inj h).1.symm hcomma
    | cons y ys =>
      obtain ⟨hx, hxs⟩ := List.forall_mem_cons.1 hxs
      obtain ⟨hy, hyrest⟩ := List.forall_mem_cons.1 hys
      simp only [List.map_cons, List.flatMap_cons, List.cons_append, List.append_assoc, List.cons.injEq, true_and] at h
      obtain ⟨rfl, hrest⟩ := hx y hy _ _ (ends_tail hclose _ _) (ends_tail hclose _ _) h
      obtain ⟨rfl, hr⟩ := ih hxs hyrest hrest
      exact ⟨rfl, hr⟩

theorem told_separated (hclose : isStop close = true) (hcomma : close ≠ ',')
    (hfirst : ∀ x s, (f x ++ s).head? ≠ some close) (hxs : ∀ x ∈ xs, Told f P x) (hys : ∀ y ∈ ys, P y)
    (h : commaSeparated (xs.map f) ++ close :: r = commaSeparated (ys.map f) ++ close :: r') : xs = ys ∧ r = r' := by
  cases xs with
  | nil =>
    cases ys with
    | nil => exact ⟨rfl, (List.cons.inj h).2⟩
    | cons y ys =>
      rw [List.map_cons, commaSeparated_cons, List.append_assoc] at h
      exact absurd (congrArg List.head? h).symm (hfirst y _)
  | cons x xs =>
    cases ys with
    | nil =>
      rw [List.map_cons, commaSeparated_cons, List.append_assoc] at h
      exact absurd (congrArg List.head? h) (hfirst x _)
    | cons y ys =>
      obtain ⟨hx, hxs⟩ := List.forall_mem_cons.1 hxs
      obtain ⟨hy, hyrest⟩ := List.forall_mem_cons.1 hys
      rw [List.map_cons, List.map_cons, commaSeparated_cons, commaSeparated_cons, List.append_assoc,
        List.append_assoc] at h
      obtain ⟨rfl, hrest⟩ := hx y hy _ _ (ends_tail hclose _ _) (ends_tail hclose _ _) h
      obtain ⟨rfl, hr⟩ := told_tail hclose hcomma hxs hyrest hrest
      exact ⟨rfl, hr⟩

end Separated

section Values

/-- What is written of a member of an object. -/
def writeMember (m : RawText × Json) : List Char := writeRaw m.1 ++ ':' :: ' ' :: write m.2

theorem writeItems_eq (vs : List Json) : writeItems vs = vs.map write := by
  induction vs with
  | nil => rfl
  | cons v vs ih => rw [writeItems, ih, List.map_cons]

theorem writeMembers_eq (ms : List (RawText × Json)) : writeMembers ms = ms.map writeMember := by
  induction ms with
  | nil => rfl
  | cons m ms ih => rw [writeMembers, ih, List.map_cons, writeMember]

/-- The mark that a value begins with, if it is no word or numeral. -/
def opening? : Json → Option Char
  | .str _ | .illFormed _ => some '"'
  | .arr _ => some '['
  | .obj _ => some '{'
  | _ => none

theorem opening?_of_isScalar (h : isScalar v = true) : opening? v = none := by
  cases v <;> first | rfl | cases h

theorem opening?_ofCodes (ns : List Nat) : opening? (ofCodes ns) = some '"' := by
  unfold ofCodes
  split <;> rfl

theorem isAtomChar_of_opening? {c : Char} (h : opening? v = some c) : isAtomChar c = false := by
  cases v <;> cases h <;> rfl

theorem write_ne_nil (h : isScalar v = true) : write v ≠ [] := by
  intro hnil
  have hatom := atomOf?_write h
  rw [hnil] at hatom
  cases hatom

theorem write_head (v : Json) :
    ∃ c t, write v = c :: t ∧ (opening? v = some c ∨ opening? v = none ∧ isAtomChar c = true) := by
  cases h : isScalar v with
  | true =>
    obtain ⟨c, t, hwrite⟩ := List.exists_cons_of_ne_nil (write_ne_nil h)
    have hatom : isAtomChar c = true := isAtomChar_of_mem_write h c (hwrite ▸ List.mem_cons_self)
    exact ⟨c, t, hwrite, .inr ⟨opening?_of_isScalar h, hatom⟩⟩
  | false =>
    cases v with
    | str s => exact ⟨'"', _, rfl, .inl rfl⟩
    | illFormed codes => exact ⟨'"', _, rfl, .inl rfl⟩
    | arr vs => exact ⟨'[', _, rfl, .inl rfl⟩
    | obj ms => exact ⟨'{', _, rfl, .inl rfl⟩
    | _ => cases h

/-- What is written alike begins with the same mark or with none. -/
theorem opening?_eq (h : write v ++ r = write w ++ r') : opening? v = opening? w := by
  obtain ⟨c, t, hv, hc⟩ := write_head v
  obtain ⟨d, u, hw, hd⟩ := write_head w
  rw [hv, hw] at h
  obtain rfl := (List.cons.inj h).1
  rcases hc with hc | ⟨hc, hatom⟩ <;> rcases hd with hd | ⟨hd, hatom'⟩
  · rw [hc, hd]
  · rw [isAtomChar_of_opening? hc] at hatom'
    cases hatom'
  · rw [isAtomChar_of_opening? hd] at hatom
    cases hatom
  · rw [hc, hd]

theorem write_ne_close (v : Json) (s : List Char) : (write v ++ s).head? ≠ some ']' := by
  obtain ⟨c, t, hwrite, hc⟩ := write_head v
  rw [hwrite]
  intro hclose
  obtain rfl : c = ']' := Option.some.inj hclose
  rcases hc with hc | ⟨-, hatom⟩
  · cases v <;> cases hc
  · cases hatom

theorem writeMember_ne_close (m : RawText × Json) (s : List Char) : (writeMember m ++ s).head? ≠ some '}' := by
  cases h : m.1 <;> simp [writeMember, h, writeRaw, writeText, writeCodes]

theorem told_writeMember {m : RawText × Json} (hname : Told write IsProper m.1.json)
    (hvalue : Told write IsProper m.2) :
    Told writeMember (fun m => IsProper m.1.json ∧ IsProper m.2) m := by
  intro m' hm' r r' hr hr' heq
  simp only [writeMember, writeRaw_eq, List.append_assoc, List.cons_append] at heq
  obtain ⟨hkey, hrest⟩ := hname m'.1.json hm'.1 _ _ (ends_cons rfl _) (ends_cons rfl _) heq
  simp only [List.cons.injEq, true_and] at hrest
  obtain ⟨hvalues, hr⟩ := hvalue m'.2 hm'.2 r r' hr hr' hrest
  exact ⟨Prod.ext (RawText.json_injective hkey) hvalues, hr⟩

/-- In front of a mark a proper value is told from what is written of it. -/
theorem told_write (hv : IsProper v) : Told write IsProper v := by
  induction hv with
  | @scalar v hv =>
    intro w hw r r' hr hr' h
    have hopening := (opening?_of_isScalar hv).symm.trans (opening?_eq h)
    cases hw with
    | scalar hw => exact scalar_inj hv hw hr hr' h
    | text => cases (opening?_ofCodes _).symm.trans hopening.symm
    | arr => cases hopening
    | obj => cases hopening
  | @text ns hns =>
    intro w hw r r' hr hr' h
    have hopening := (opening?_ofCodes ns).symm.trans (opening?_eq h)
    cases hw with
    | scalar hw => cases hopening.trans (opening?_of_isScalar hw)
    | text hms =>
      rw [write_ofCodes, write_ofCodes] at h
      obtain ⟨hcodes, hrest⟩ := writeCodes_inj hns hms h
      exact ⟨congrArg ofCodes hcodes, hrest⟩
    | arr => cases hopening
    | obj => cases hopening
  | @arr vs _ ih =>
    intro w hw r r' hr hr' h
    have hopening := opening?_eq h
    cases hw with
    | scalar hw => cases hopening.trans (opening?_of_isScalar hw)
    | text => cases hopening.trans (opening?_ofCodes _)
    | arr hws =>
      simp only [write, writeItems_eq, List.cons_append, List.append_assoc, List.nil_append, List.cons.injEq,
        true_and] at h
      obtain ⟨rfl, hrest⟩ := told_separated rfl (by decide) write_ne_close ih hws h
      exact ⟨rfl, hrest⟩
    | obj => cases hopening
  | @obj ms _ _ ihname ih =>
    intro w hw r r' hr hr' h
    have hopening := opening?_eq h
    cases hw with
    | scalar hw => cases hopening.trans (opening?_of_isScalar hw)
    | text => cases hopening.trans (opening?_ofCodes _)
    | arr => cases hopening
    | obj hnames hvalues =>
      simp only [write, writeMembers_eq, List.cons_append, List.append_assoc, List.nil_append, List.cons.injEq,
        true_and] at h
      obtain ⟨rfl, hrest⟩ := told_separated (P := fun m => IsProper m.1.json ∧ IsProper m.2) rfl (by decide)
        writeMember_ne_close (fun m hm => told_writeMember (ihname m hm) (ih m hm))
        (fun m hm => ⟨hnames m hm, hvalues m hm⟩) h
      exact ⟨rfl, hrest⟩

/-- No two proper values are written alike. -/
theorem write_inj (hv : IsProper v) (hw : IsProper w) (h : write v = write w) : v = w :=
  (told_write hv w hw [] [] nofun nofun (by rw [h])).1

theorem mem_commaSeparated {ps : List (List Char)} {c : Char} (h : c ∈ commaSeparated ps) :
    c = ',' ∨ c = ' ' ∨ ∃ p ∈ ps, c ∈ p := by
  cases ps with
  | nil => cases h
  | cons p ps =>
    rw [commaSeparated_cons, List.mem_append, List.mem_flatMap] at h
    rcases h with h | ⟨q, hq, h⟩
    · exact .inr (.inr ⟨p, List.mem_cons_self, h⟩)
    · simp only [List.mem_cons] at h
      rcases h with h | h | h
      · exact .inl h
      · exact .inr (.inl h)
      · exact .inr (.inr ⟨q, List.mem_cons_of_mem p hq, h⟩)

theorem newline_notMem_commaSeparated {ps : List (List Char)} (h : ∀ p ∈ ps, '\n' ∉ p) :
    '\n' ∉ commaSeparated ps := by
  intro hmem
  rcases mem_commaSeparated hmem with hc | hc | ⟨p, hp, hc⟩
  · cases hc
  · cases hc
  · exact h p hp hc

theorem newline_notMem_writeCodes {ns : List Nat} (h : AreCodes ns) : '\n' ∉ writeCodes ns := by
  have hbody := (spells_flatMap h).notMem_newline
  simp [writeCodes, hbody]

/-- What is written of a proper value is a single line. -/
theorem newline_notMem_write (hv : IsProper v) : '\n' ∉ write v := by
  induction hv with
  | scalar h =>
    intro hmem
    cases isAtomChar_of_mem_write h _ hmem
  | text hns =>
    rw [write_ofCodes]
    exact newline_notMem_writeCodes hns
  | @arr vs _ ih =>
    have hitems := newline_notMem_commaSeparated (List.forall_mem_map.2 ih)
    simp [write, writeItems_eq, hitems]
  | @obj ms _ _ ihname ih =>
    have hmember : ∀ m ∈ ms, '\n' ∉ writeMember m := by
      intro m hm
      simp [writeMember, writeRaw_eq, ihname m hm, ih m hm]
    have hmembers := newline_notMem_commaSeparated (List.forall_mem_map.2 hmember)
    simp [write, writeMembers_eq, hmembers]

end Values

end Solwright.Json
