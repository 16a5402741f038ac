import Solwright.Proofs.Number.Value
import Solwright.Proofs.Text.Trim

/-! Whole numbers with no more digits than are read. What is written of one is a numeral for it. -/

namespace Solwright.Number

open Text

/-- A whole number has no more digits than are read. -/
def IsShort (n : Int) : Prop := (Nat.toDigits 10 n.natAbs).length ≤ digitLimit

theorem isShort_neg {n : Int} : IsShort (-n) ↔ IsShort n := by
  rw [IsShort, IsShort, Int.natAbs_neg]

variable {c : Char} {s : List Char}

theorem toNat_of_isDigit (h : c.isDigit = true) : 48 ≤ c.toNat ∧ c.toNat ≤ 57 := by
  unfold Char.isDigit at h
  simp only [Bool.and_eq_true, decide_eq_true_eq, ge_iff_le, UInt32.le_iff_toNat_le] at h
  exact h

theorem digitValue?_of_isDigit (h : c.isDigit = true) : digitValue? c = some (c.toNat - '0'.toNat) := by
  have hn := toNat_of_isDigit h
  have hzero : digitZeros.find? (fun z => z ≤ c.toNat && c.toNat < z + 10) = some 0x30 :=
    List.find?_cons_of_pos (by simp; omega)
  rw [digitValue?, hzero]
  rfl

theorem digitTail_of_isDigit (h : ∀ c ∈ s, c.isDigit = true) :
    DigitTail s (s.map fun c => c.toNat - '0'.toNat) := by
  induction s with
  | nil => exact .nil
  | cons c s ih =>
    have hc := digitValue?_of_isDigit (h c List.mem_cons_self)
    exact .digit hc (ih fun d hd => h d (List.mem_cons_of_mem c hd))

/-- Plain digits are an unsigned numeral, as long as they are no more than the limit. -/
theorem isDigits_of_isDigit (h : ∀ c ∈ s, c.isDigit = true) (hne : s ≠ []) (hlength : s.length ≤ digitLimit) :
    IsDigits s (Nat.ofDigitChars 10 s 0) := by
  obtain ⟨c, tail, rfl⟩ := List.exists_cons_of_ne_nil hne
  obtain ⟨hc, htail⟩ := List.forall_mem_cons.1 h
  refine ⟨c, tail, _, _, rfl, digitValue?_of_isDigit hc, digitTail_of_isDigit htail, ?_, ?_⟩
  · rw [List.length_map]
    exact hlength
  · rw [spelledBehind, List.foldl_map, Nat.ofDigitChars_eq_foldl, List.foldl_cons]
    simp

/-- Digits spell a number that has no more of them. -/
theorem ofDigitChars_lt (h : ∀ c ∈ s, c.isDigit = true) (n : Nat) :
    Nat.ofDigitChars 10 s n < (n + 1) * 10 ^ s.length := by
  induction s generalizing n with
  | nil => simp [Nat.ofDigitChars_nil]
  | cons c s ih =>
    have hc := toNat_of_isDigit (h c List.mem_cons_self)
    have hzero : '0'.toNat = 48 := rfl
    calc Nat.ofDigitChars 10 (c :: s) n
        = Nat.ofDigitChars 10 s (10 * n + (c.toNat - '0'.toNat)) := Nat.ofDigitChars_cons
      _ < (10 * n + (c.toNat - '0'.toNat) + 1) * 10 ^ s.length :=
          ih (fun d hd => h d (List.mem_cons_of_mem c hd)) _
      _ ≤ ((n + 1) * 10) * 10 ^ s.length := Nat.mul_le_mul_right _ (by omega)
      _ = (n + 1) * 10 ^ (c :: s).length := by rw [List.length_cons, Nat.pow_succ']; ring

theorem isShort_ofDigitChars (h : ∀ c ∈ s, c.isDigit = true) (hlength : s.length ≤ digitLimit) :
    IsShort (Nat.ofDigitChars 10 s 0 : Nat) := by
  have hlt : Nat.ofDigitChars 10 s 0 < 10 ^ digitLimit := by
    calc Nat.ofDigitChars 10 s 0 < (0 + 1) * 10 ^ s.length := ofDigitChars_lt h 0
      _ = 10 ^ s.length := by omega
      _ ≤ 10 ^ digitLimit := Nat.pow_le_pow_right (by omega) hlength
  exact (Nat.length_toDigits_le_iff (by omega) (by decide)).2 hlt

theorem not_isNumeralBlank_of_isDigit (h : c.isDigit = true) : isNumeralBlank c = false := by
  have hn := toNat_of_isDigit h
  simp [isNumeralBlank, isBlank]
  omega

theorem not_isNumeralBlank_getLast? (h : ∀ c ∈ s, c.isDigit = true) : s.getLast?.any isNumeralBlank = false := by
  cases hlast : s.getLast? with
  | none => rfl
  | some c => exact not_isNumeralBlank_of_isDigit (h c (List.mem_of_getLast? hlast))

theorem integerText_eq (n : Int) : (integerText n).toList =
    if 0 ≤ n then Nat.toDigits 10 n.natAbs else '-' :: Nat.toDigits 10 n.natAbs := by
  rw [integerText, Int.toString_eq_repr, Int.repr_eq_if]
  split
  next h =>
    have htoNat : n.toNat = n.natAbs := by omega
    rw [Nat.repr_eq_ofList_toDigits, String.toList_ofList, htoNat]
  next h =>
    have htoNat : (-n).toNat = n.natAbs := by omega
    simp [Nat.repr_eq_ofList_toDigits, htoNat]

/-- What is written of a whole number is read as it, unless it has too many digits. -/
theorem isNumeral_integerText {n : Int} (h : IsShort n) : IsNumeral (integerText n).toList n := by
  rw [integerText_eq]
  rw [IsShort] at h
  generalize hds : Nat.toDigits 10 n.natAbs = ds at h ⊢
  have hdigits : ∀ c ∈ ds, c.isDigit = true := by
    intro c hc
    exact Nat.isDigit_of_mem_toDigits (by omega) (by omega) (hds ▸ hc)
  have hne : ds ≠ [] := hds ▸ Nat.toDigits_ne_nil
  have hread : IsDigits ds n.natAbs := by
    have hvalue : Nat.ofDigitChars 10 ds 0 = n.natAbs := hds ▸ Nat.ofDigitChars_toDigits (by omega) (by omega)
    exact hvalue ▸ isDigits_of_isDigit hdigits hne h
  have hlast := not_isNumeralBlank_getLast? hdigits
  obtain ⟨c, tail, rfl⟩ := List.exists_cons_of_ne_nil hne
  have hc := not_isNumeralBlank_of_isDigit (hdigits c List.mem_cons_self)
  by_cases hn : 0 ≤ n
  · have htrim : trimBy isNumeralBlank (c :: tail) = c :: tail := trimBy_of_ends hc hlast
    have hplain : IsNumeral (c :: tail) n.natAbs := .plain (htrim.symm ▸ hread)
    rwa [if_pos hn, ← Int.natAbs_of_nonneg hn]
  · have hminus : isNumeralBlank '-' = false := by decide
    have htrim : trimBy isNumeralBlank ('-' :: c :: tail) = '-' :: c :: tail :=
      trimBy_of_ends hminus (by rwa [List.getLast?_cons_cons])
    have hvalue : -(n.natAbs : Int) = n := by omega
    have hsigned : IsNumeral ('-' :: c :: tail) (-n.natAbs) := .minus htrim hread
    rwa [if_neg hn, ← hvalue]

end Solwright.Number
