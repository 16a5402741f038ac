import Mathlib.Algebra.Ring.Nat
import Mathlib.Data.List.Basic
import Solwright.Text.Hex

/-! Hexadecimal digits: what they spell, and the digits of bytes, which give the bytes back and can never be taken for a
mark. -/

namespace Solwright.Text

variable {c : Char} {ds es : List Char}

theorem toNat_lt_of_hexDigit? {v : Nat} (h : hexDigit? c = some v) : c.toNat < 128 := by
  unfold hexDigit? at h
  split at h
  next hc =>
    have hdigit : c.val ≤ '9'.val := by simpa [Char.isDigit] using (Bool.and_eq_true_iff.1 hc).2
    exact Nat.lt_of_le_of_lt hdigit (by decide)
  split at h
  next hc => exact Nat.lt_of_le_of_lt (of_decide_eq_true (Bool.and_eq_true_iff.1 hc).2 : c ≤ 'f') (by decide)
  split at h
  next hc => exact Nat.lt_of_le_of_lt (of_decide_eq_true (Bool.and_eq_true_iff.1 hc).2 : c ≤ 'F') (by decide)
  next => cases h

/-- A hexadecimal digit is the one of its value, in lower case. -/
theorem toLower_of_hexDigit? {v : Nat} (h : hexDigit? c = some v) : v < 16 ∧ c.toLower = Nat.digitChar v := by
  have hall : ∀ n < 128, ∀ v ∈ hexDigit? (Char.ofNat n),
      v < 16 ∧ (Char.ofNat n).toLower = Nat.digitChar v := by decide
  have hc := hall c.toNat (toNat_lt_of_hexDigit? h) v
  rw [Char.ofNat_toNat] at hc
  exact hc h

/-- The number that hexadecimal digits spell behind others. -/
def hexAfter (n : Nat) (s : List Char) : Nat :=
  s.foldl (fun n c => 16 * n + (hexDigit? c).getD 0) n

theorem hexAfter_cons {v : Nat} (h : hexDigit? c = some v) (n : Nat) (s : List Char) :
    hexAfter n (c :: s) = hexAfter (16 * n + v) s := by
  rw [hexAfter, List.foldl_cons, h]
  rfl

/-- Digits of as many places spell one number only if they are the same, apart from their case. -/
theorem toLower_of_hexAfter_eq (hds : ∀ c ∈ ds, ∃ v, hexDigit? c = some v) (hes : ∀ c ∈ es, ∃ v, hexDigit? c = some v)
    (hlength : ds.length = es.length) {n m : Nat} (h : hexAfter n ds = hexAfter m es) :
    n = m ∧ ds.map Char.toLower = es.map Char.toLower := by
  induction ds generalizing es n m with
  | nil =>
    rw [List.length_eq_zero_iff.1 hlength.symm] at h ⊢
    exact ⟨h, rfl⟩
  | cons d ds ih =>
    obtain ⟨e, es, rfl⟩ := List.exists_cons_of_length_eq_add_one hlength.symm
    obtain ⟨⟨v, hv⟩, hds⟩ := List.forall_mem_cons.1 hds
    obtain ⟨⟨w, hw⟩, hes⟩ := List.forall_mem_cons.1 hes
    rw [hexAfter_cons hv, hexAfter_cons hw] at h
    obtain ⟨hsum, hrest⟩ := ih hds hes (Nat.succ.inj hlength) h
    obtain ⟨hv16, hlower⟩ := toLower_of_hexDigit? hv
    obtain ⟨hw16, hlower'⟩ := toLower_of_hexDigit? hw
    have hvalue : v = w := by omega
    refine ⟨by omega, ?_⟩
    rw [List.map_cons, List.map_cons, hlower, hlower', hvalue, hrest]

theorem hexAfter_lt (hds : ∀ c ∈ ds, ∃ v, hexDigit? c = some v) (n : Nat) :
    hexAfter n ds < (n + 1) * 16 ^ ds.length := by
  induction ds generalizing n with
  | nil => simp [hexAfter]
  | cons d ds ih =>
    obtain ⟨⟨v, hv⟩, hds⟩ := List.forall_mem_cons.1 hds
    have hv16 := (toLower_of_hexDigit? hv).1
    calc hexAfter n (d :: ds) = hexAfter (16 * n + v) ds := hexAfter_cons hv n ds
      _ < (16 * n + v + 1) * 16 ^ ds.length := ih hds (16 * n + v)
      _ ≤ ((n + 1) * 16) * 16 ^ ds.length := Nat.mul_le_mul_right _ (by omega)
      _ = (n + 1) * 16 ^ (d :: ds).length := by rw [List.length_cons, Nat.pow_succ', Nat.mul_assoc]

theorem hexPadded_byte {n : Nat} (h : n < 256) : (hexPadded 2 n).length = 2 ∧ hexAfter 0 (hexPadded 2 n) = n ∧
    ∀ c ∈ hexPadded 2 n, c ≠ 'x' ∧ c ≠ 'X' := by
  have hall : ∀ n < 256, (hexPadded 2 n).length = 2 ∧ hexAfter 0 (hexPadded 2 n) = n ∧
      (hexPadded 2 n).all (fun c => c != 'x' && c != 'X') = true := by decide +kernel
  obtain ⟨hlength, hvalue, hplain⟩ := hall n h
  exact ⟨hlength, hvalue, by simpa using hplain⟩

theorem hexText_cons (b : UInt8) (bs : List UInt8) : hexText (b :: bs) = hexPadded 2 b.toNat ++ hexText bs := rfl

/-- Bytes with the same digits are the same. -/
theorem hexText_inj {bs cs : List UInt8} (h : hexText bs = hexText cs) : bs = cs := by
  have hlength : ∀ (b : UInt8) (bs : List UInt8), (hexText (b :: bs)).length ≠ 0 := by
    intro b bs
    rw [hexText_cons, List.length_append, (hexPadded_byte b.toNat_lt).1]
    omega
  induction bs generalizing cs with
  | nil =>
    cases cs with
    | nil => rfl
    | cons c cs => exact absurd (congrArg List.length h).symm (hlength c cs)
  | cons b bs ih =>
    cases cs with
    | nil => exact absurd (congrArg List.length h) (hlength b bs)
    | cons c cs =>
      obtain ⟨hb, hvalue, -⟩ := hexPadded_byte b.toNat_lt
      obtain ⟨hc, hvalue', -⟩ := hexPadded_byte c.toNat_lt
      rw [hexText_cons, hexText_cons] at h
      obtain ⟨hfirst, hrest⟩ := List.append_inj h (hb.trans hc.symm)
      have hbyte : b.toNat = c.toNat := by rw [← hvalue, hfirst, hvalue']
      rw [UInt8.toNat_inj.1 hbyte, ih hrest]

theorem ne_mark_of_mem_hexText {bs : List UInt8} {c : Char} (h : c ∈ hexText bs) : c ≠ 'x' ∧ c ≠ 'X' := by
  obtain ⟨b, -, hc⟩ := List.mem_flatMap.1 h
  exact (hexPadded_byte b.toNat_lt).2.2 c hc

theorem hasHexMark_iff {s : List Char} :
    hasHexMark s = true ↔ ∃ m t, s = '0' :: m :: t ∧ (m = 'x' ∨ m = 'X') := by
  constructor
  · intro h
    unfold hasHexMark at h
    split at h
    next t => exact ⟨'x', t, rfl, .inl rfl⟩
    next t => exact ⟨'X', t, rfl, .inr rfl⟩
    next => cases h
  · rintro ⟨m, t, rfl, rfl | rfl⟩ <;> rfl

/-- Digits of bytes behind a text make no mark. -/
theorem hasHexMark_append_hexText {s : List Char} (h : hasHexMark s = false) (bs : List UInt8) :
    hasHexMark (s ++ hexText bs) = false := by
  rw [Bool.eq_false_iff] at h ⊢
  intro hmark
  obtain ⟨m, t, ht, hm⟩ := hasHexMark_iff.1 hmark
  have hdigit : m ∉ hexText bs := by
    intro hmem
    obtain ⟨hx, hX⟩ := ne_mark_of_mem_hexText hmem
    exact hm.elim hx hX
  rcases s with _ | ⟨c, _ | ⟨d, s⟩⟩
  · rw [List.nil_append] at ht
    exact hdigit (by simp [ht])
  · have hrest : hexText bs = m :: t := (List.cons.inj ht).2
    exact hdigit (by simp [hrest])
  · simp only [List.cons_append, List.cons.injEq] at ht
    obtain ⟨rfl, rfl, -⟩ := ht
    exact h (hasHexMark_iff.2 ⟨d, s, rfl, hm⟩)

theorem withHexMark_append_hexText (s : List Char) (bs : List UInt8) :
    withHexMark (s ++ hexText bs) = withHexMark s ++ hexText bs := by
  cases h : hasHexMark s with
  | true =>
    obtain ⟨m, t, rfl, hm⟩ := hasHexMark_iff.1 h
    have hboth : hasHexMark ('0' :: m :: t ++ hexText bs) = true := hasHexMark_iff.2 ⟨m, t ++ hexText bs, rfl, hm⟩
    rw [withHexMark, withHexMark, if_pos h, if_pos hboth]
  | false =>
    have hboth := hasHexMark_append_hexText h bs
    simp [withHexMark, h, hboth]

/-- Hexadecimal digits of any case. -/
def AreHexDigits (ds : List Char) : Prop := ∀ c ∈ ds, (hexDigit? c).isSome = true

instance (ds : List Char) : Decidable (AreHexDigits ds) :=
  -- by the list: there is an instance for all characters too, which goes through every one of them
  List.decidableBAll (fun c => (hexDigit? c).isSome = true) ds

theorem AreHexDigits.hasHexMark (h : AreHexDigits ds) : hasHexMark ds = false := by
  rw [Bool.eq_false_iff]
  intro hmark
  obtain ⟨m, t, rfl, rfl | rfl⟩ := hasHexMark_iff.1 hmark
  · exact absurd (h 'x' (by simp)) (by decide)
  · exact absurd (h 'X' (by simp)) (by decide)

theorem AreHexDigits.withHexMark (h : AreHexDigits ds) : withHexMark ds = '0' :: 'x' :: ds := by
  rw [Text.withHexMark, if_neg (Bool.eq_false_iff.1 h.hasHexMark)]

theorem AreHexDigits.dropHexMark (h : AreHexDigits ds) : dropHexMark ds = ds := by
  have hmark := h.hasHexMark
  unfold Text.dropHexMark
  split
  next => cases hmark
  next => cases hmark
  next => rfl

end Solwright.Text
