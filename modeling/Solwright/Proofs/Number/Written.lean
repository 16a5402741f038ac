import Solwright.Json.Writer
import Solwright.Proofs.Number.Reading
import Solwright.Proofs.Number.Rounding

/-! What is written of a double. It is a word or a numeral with a point or a power, and it reads back as the same
double. -/

namespace Solwright.Number

open Text

variable {n : Numeral} {zeros : Nat} {ds s : List Char} {d : Decimal}

/-- A numeral that cannot be taken for a whole number: it has a point or a power. -/
structure IsMarked (s : List Char) (d : Decimal) : Prop where
  unsigned : IsUnsigned s d
  mark : '.' ∈ s ∨ 'e' ∈ s

/-- The digits of a power, of which there are two at least. -/
theorem powerDigits_spec (n : Nat) : ∃ ds, (if (decimalDigits n).length < 2 then '0' :: decimalDigits n
    else decimalDigits n) = ds ∧ (∀ c ∈ ds, c.isDigit = true) ∧ ds ≠ [] ∧ Nat.ofDigitChars 10 ds 0 = n := by
  have hdigits := isDigit_decimalDigits n
  have hne : decimalDigits n ≠ [] := Nat.toDigits_ne_nil
  have hvalue : Nat.ofDigitChars 10 (decimalDigits n) 0 = n := Nat.ofDigitChars_ten_toDigits
  refine ⟨_, rfl, ?_⟩
  split
  · exact ⟨List.forall_mem_cons.2 ⟨rfl, hdigits⟩, by simp, by rw [Nat.ofDigitChars_cons]; exact hvalue⟩
  · exact ⟨hdigits, hne, hvalue⟩

theorem isPower_powerText (e : Int) : IsPower (powerText e) e := by
  obtain ⟨ds, hds, hdigits, hne, hvalue⟩ := powerDigits_spec e.natAbs
  rw [powerText, hds]
  by_cases he : e < 0
  · have hpower := IsPower.signed (e := 'e') true (.inl rfl) hdigits hne
    have hexponent : -(Nat.ofDigitChars 10 ds 0 : Int) = e := by omega
    rw [if_pos rfl, if_pos rfl, hexponent] at hpower
    rwa [if_pos he]
  · have hpower := IsPower.signed (e := 'e') false (.inl rfl) hdigits hne
    have hexponent : (Nat.ofDigitChars 10 ds 0 : Int) = e := by omega
    rw [if_neg Bool.false_ne_true, if_neg Bool.false_ne_true, hexponent] at hpower
    rwa [if_neg he]

/-- The point stands behind the digits, with a zero after it. -/
theorem isMarked_behind (h : ∀ c ∈ ds, c.isDigit = true) (hne : ds ≠ []) (zeros : Nat) :
    ∃ d, IsMarked (ds ++ List.replicate zeros '0' ++ ['.', '0']) d ∧
      d.value = Nat.ofDigitChars 10 ds 0 * 10 ^ (zeros : Int) := by
  have hwhole : ∀ c ∈ ds ++ List.replicate zeros '0', c.isDigit = true :=
    List.forall_mem_append.2 ⟨h, isDigit_zeros zeros⟩
  have hpoint := IsUnsigned.point (b := ['0']) hwhole (by simp [hne]) (by simp) .none
  rw [List.append_nil] at hpoint
  refine ⟨_, ⟨hpoint, .inl (by simp)⟩, ?_⟩
  have hcoefficient : Nat.ofDigitChars 10 (ds ++ List.replicate zeros '0' ++ ['0']) 0 =
      Nat.ofDigitChars 10 ds 0 * 10 ^ zeros * 10 := by
    rw [Nat.ofDigitChars_append, Nat.ofDigitChars_append, Nat.ofDigitChars_replicate_zero, Nat.mul_comm (10 ^ zeros)]
    exact Nat.mul_comm ..
  rw [Decimal.value, hcoefficient]
  push_cast
  simp

/-- Digits with a power behind them have a mark: the letter of the power. -/
theorem isMarked_scientific (h : ∀ c ∈ ds, c.isDigit = true) (hne : ds ≠ []) (e : Int) :
    IsMarked (scientific ds (powerText e)) ⟨false, Nat.ofDigitChars 10 ds 0, e + 1 - ds.length⟩ := by
  refine ⟨isUnsigned_scientific h hne (isPower_powerText e), .inr ?_⟩
  match ds with
  | [] => exact absurd rfl hne
  | [c] => simp [scientific, powerText]
  | c :: c' :: r => simp [scientific, powerText]

/-- A numeral in each of its forms: the point goes where the power of ten puts it. -/
theorem isMarked_text (hn : n.digits ≠ 0) (h : dropTrailingZeros (decimalDigits n.digits) = (ds, zeros)) :
    ∃ d, IsMarked n.text d ∧ d.value = Nat.ofDigitChars 10 ds 0 * 10 ^ ((zeros : Int) + n.exponent) := by
  obtain ⟨hdigits, hne, -⟩ := dropTrailingZeros_decimalDigits h
  have hne := hne hn
  have hlength : 0 < ds.length := List.length_pos_iff.2 hne
  obtain ⟨place, hplace⟩ : ∃ place, (ds.length : Int) + zeros + n.exponent = place := ⟨_, rfl⟩
  have hvalue : ∀ k : Int, k = place - ds.length → (⟨false, Nat.ofDigitChars 10 ds 0, k⟩ : Decimal).value =
      Nat.ofDigitChars 10 ds 0 * 10 ^ ((zeros : Int) + n.exponent) := by
    intro k hk
    have hexponent : k = zeros + n.exponent := by omega
    simp [Decimal.value, hexponent]
  rw [Numeral.text, h]
  dsimp only
  rw [hplace, if_neg hn]
  split
  next =>
    split
    next hbefore =>
      exact ⟨_, ⟨isUnsigned_before hdigits (-place).toNat, .inl (by simp)⟩, hvalue _ (by omega)⟩
    next hpos =>
    split
    next hbehind =>
      obtain ⟨d, hd, hdvalue⟩ := isMarked_behind hdigits hne (place.toNat - ds.length)
      refine ⟨d, hd, hdvalue.trans ?_⟩
      congr 2
      omega
    next hinside =>
      exact ⟨_, ⟨isUnsigned_inside hdigits (w := place.toNat) (by omega) (by omega), .inl (by simp)⟩,
        hvalue _ (by omega)⟩
  next => exact ⟨_, isMarked_scientific hdigits hne (place - 1), hvalue _ (by omega)⟩

theorem text_value (n : Numeral) : ∃ d, IsMarked n.text d ∧ d.value = n.value := by
  by_cases hn : n.digits = 0
  · have hzero : IsUnsigned (['0'] ++ '.' :: (['0'] ++ [])) ⟨false, 0, 0 - 1⟩ :=
      .point (by simp) (by simp) (by simp) .none
    have htext : n.text = ['0', '.', '0'] := by
      rw [Numeral.text, hn]
      rfl
    rw [htext]
    exact ⟨_, ⟨hzero, .inl (by simp)⟩, by simp [Decimal.value, Numeral.value, hn]⟩
  obtain ⟨ds, zeros, h⟩ : ∃ ds zeros, dropTrailingZeros (decimalDigits n.digits) = (ds, zeros) := ⟨_, _, rfl⟩
  obtain ⟨d, hd, hvalue⟩ := isMarked_text hn h
  refine ⟨d, hd, hvalue.trans ?_⟩
  rw [Numeral.value, zpow_add₀ (by norm_num), ← mul_assoc, zpow_natCast,
    ← (dropTrailingZeros_decimalDigits h).2.2]
  push_cast
  rfl

namespace Binary64

/-- What is written of a double reads back. -/
theorem binary64?_text (x : Binary64) : binary64? (x.text Json.specialNames) = some x := by
  cases x with
  | nan => rfl
  | infinite s => cases s <;> rfl
  | finite s m e h =>
    obtain ⟨d, hd, hvalue⟩ := text_value (shortestNumeral m e)
    have hplain : d.negative = false := hd.unsigned.negative_eq
    obtain ⟨hread, hread'⟩ := hd.unsigned.decimal?
    have hdouble : ofDecimal s d.coefficient d.exponent = finite s m e h := by
      have hsame : (d.coefficient : ℚ) * 10 ^ d.exponent =
          (shortestNumeral m e).digits * 10 ^ (shortestNumeral m e).exponent := by
        rw [← Numeral.value, ← hvalue, Decimal.value, hplain, if_neg Bool.false_ne_true, one_mul]
      rw [ofDecimal_congr s hsame, ofDecimal_sign, ofDecimal_shortestNumeral h, ← ofParts_sign,
        ofParts_of_canonical]
    cases s with
    | false =>
      rw [text, if_neg Bool.false_ne_true, List.nil_append, binary64?, hread]
      dsimp only
      rw [hplain, hdouble]
    | true =>
      rw [text, if_pos rfl, List.singleton_append, binary64?, hread']
      dsimp only
      rw [hdouble]

end Binary64

end Solwright.Number
