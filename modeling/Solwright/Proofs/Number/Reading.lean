import Solwright.Number.Decimal
import Solwright.Number.Shortest
import Solwright.Proofs.Number.Digits

/-! How decimal numerals are read: the digits around a point are one number, and the point and the power behind
them only move it. -/

namespace Solwright.Number

open Text

/-- The number that a decimal stands for. -/
def Decimal.value (d : Decimal) : ℚ :=
  (if d.negative then -1 else 1) * d.coefficient * 10 ^ d.exponent

/-- A power of ten behind the digits of a numeral: a letter, a sign and digits, or nothing at all. -/
inductive IsPower : List Char → Int → Prop
  | none : IsPower [] 0
  | signed {e : Char} {ds : List Char} (negative : Bool) : e = 'e' ∨ e = 'E' → (∀ c ∈ ds, c.isDigit = true) →
      ds ≠ [] → IsPower (e :: (if negative then '-' else '+') :: ds)
        (if negative then -(Nat.ofDigitChars 10 ds 0 : Int) else Nat.ofDigitChars 10 ds 0)

/-- A numeral without a sign: digits, some of them behind a point if there is one, and a power. -/
inductive IsUnsigned : List Char → Decimal → Prop
  | whole {a p : List Char} {k : Int} : (∀ c ∈ a, c.isDigit = true) → a ≠ [] → IsPower p k →
      IsUnsigned (a ++ p) ⟨false, Nat.ofDigitChars 10 a 0, k⟩
  | point {a b p : List Char} {k : Int} : (∀ c ∈ a, c.isDigit = true) → a ≠ [] →
      (∀ c ∈ b, c.isDigit = true) → IsPower p k →
      IsUnsigned (a ++ '.' :: (b ++ p)) ⟨false, Nat.ofDigitChars 10 (a ++ b) 0, k - b.length⟩

variable {a ds p rest s : List Char} {d : Decimal} {k : Int}

section Read

theorem asciiDigit?_of_isDigit {c : Char} (h : c.isDigit = true) : asciiDigit? c = some (c.toNat - '0'.toNat) :=
  if_pos h

theorem digitsFrom_append (h : ∀ c ∈ ds, c.isDigit = true) (hrest : ∀ c ∈ rest.head?, c.isDigit = false)
    (value length : Nat) : digitsFrom asciiDigit? value length (ds ++ rest) =
      (Nat.ofDigitChars 10 ds value, length + ds.length, rest) := by
  induction ds generalizing value length with
  | nil =>
    cases rest with
    | nil => rfl
    | cons c rest => simp [digitsFrom, asciiDigit?, hrest c rfl]
  | cons c ds ih =>
    obtain ⟨hc, hds⟩ := List.forall_mem_cons.1 h
    rw [List.cons_append, digitsFrom, asciiDigit?_of_isDigit hc, Nat.ofDigitChars_cons]
    dsimp only
    rw [ih hds, List.length_cons, Nat.add_assoc, Nat.add_comm 1]

theorem digitsFrom_digits (h : ∀ c ∈ ds, c.isDigit = true) (value length : Nat) :
    digitsFrom asciiDigit? value length ds = (Nat.ofDigitChars 10 ds value, length + ds.length, []) := by
  have hread := digitsFrom_append h (nofun : ∀ c ∈ ([] : List Char).head?, c.isDigit = false) value length
  rwa [List.append_nil] at hread

theorem takeSign_of_isDigit {c : Char} (h : c.isDigit = true) (s : List Char) :
    takeSign (c :: s) = (false, c :: s) := by
  rw [takeSign]
  · rintro t heq
    rw [(List.cons.inj heq).1] at h
    cases h
  · rintro t heq
    rw [(List.cons.inj heq).1] at h
    cases h

namespace IsPower

theorem power? (h : IsPower p k) : power? asciiDigit? p = some k := by
  cases h with
  | none => rfl
  | @signed e ds negative he hds hne =>
    obtain ⟨n, hn⟩ : ∃ n, ds.length = n + 1 := Nat.exists_eq_succ_of_ne_zero (mt List.length_eq_zero_iff.1 hne)
    have hread : digitsFrom asciiDigit? 0 0 ds = (Nat.ofDigitChars 10 ds 0, n + 1, []) := by
      rw [digitsFrom_digits hds, hn, Nat.zero_add]
    have hsign : takeSign ((if negative then '-' else '+') :: ds) = (negative, ds) := by
      cases negative <;> rfl
    have hletter : (e == 'e' || e == 'E') = true := by
      rcases he with rfl | rfl <;> rfl
    rw [Number.power?, if_pos hletter, hsign]
    dsimp only
    rw [hread]
    rfl

theorem head (h : IsPower p k) : ∀ c ∈ p.head?, c.isDigit = false ∧ c ≠ '.' := by
  intro c hc
  cases h with
  | none => cases hc
  | signed negative he hds hne =>
    obtain rfl := Option.some.inj hc
    rcases he with rfl | rfl <;> decide

end IsPower

namespace IsUnsigned

theorem head (h : IsUnsigned s d) : ∃ c t, s = c :: t ∧ c.isDigit = true := by
  cases h with
  | whole ha hne _ =>
    obtain ⟨c, t, rfl⟩ := List.exists_cons_of_ne_nil hne
    exact ⟨c, _, rfl, ha c List.mem_cons_self⟩
  | point ha hne _ _ =>
    obtain ⟨c, t, rfl⟩ := List.exists_cons_of_ne_nil hne
    exact ⟨c, _, rfl, ha c List.mem_cons_self⟩

theorem negative_eq (h : IsUnsigned s d) : d.negative = false := by cases h <;> rfl

theorem unsigned? (h : IsUnsigned s d) : unsigned? asciiDigit? s = some (d.coefficient, d.exponent) := by
  cases h with
  | @whole a p k ha hne hp =>
    have hread := digitsFrom_append ha (fun c hc => (hp.head c hc).1) 0 0
    rw [Number.unsigned?, hread]
    split
    next heq =>
      obtain ⟨-, -, hdot⟩ := Prod.mk.inj heq |>.imp_right Prod.mk.inj
      exact absurd rfl (hp.head '.' (by rw [hdot]; rfl)).2
    next heq =>
      obtain ⟨rfl, rfl, rfl⟩ := Prod.mk.inj heq |>.imp_right Prod.mk.inj
      rw [if_neg (by simpa using hne), hp.power?]
      rfl
  | @point a b p k ha hne hb hp =>
    have hpoint : ∀ c ∈ ('.' :: (b ++ p)).head?, c.isDigit = false := by
      rintro c ⟨⟩
      rfl
    have hread := digitsFrom_append ha hpoint 0 0
    have hlength : 0 + a.length + b.length - (0 + a.length) = b.length := by omega
    have hfraction : fraction? asciiDigit? (Nat.ofDigitChars 10 a 0) (0 + a.length) (b ++ p) =
        some (Nat.ofDigitChars 10 (a ++ b) 0, k - b.length) := by
      rw [fraction?, digitsFrom_append hb fun c hc => (hp.head c hc).1]
      dsimp only
      rw [if_neg (by simp [hne]), hp.power?, Option.map_some, hlength, Nat.ofDigitChars_append]
    rw [Number.unsigned?, hread]
    exact hfraction

/-- A numeral is read with a minus in front of it or without. -/
theorem decimal? (h : IsUnsigned s d) :
    decimal? asciiDigit? s = some d ∧ decimal? asciiDigit? ('-' :: s) = some { d with negative := true } := by
  obtain ⟨c, t, rfl, hc⟩ := h.head
  have hsign : takeSign (c :: t) = (false, c :: t) := takeSign_of_isDigit hc t
  constructor
  · rw [Number.decimal?, hsign]
    dsimp only
    rw [h.unsigned?, ← h.negative_eq]
    rfl
  · rw [Number.decimal?, takeSign]
    dsimp only
    rw [h.unsigned?]
    rfl

end IsUnsigned

end Read

section Layout

/-- The point stands among the digits. -/
theorem isUnsigned_inside (h : ∀ c ∈ ds, c.isDigit = true) {w : Nat} (hpos : 0 < w) (hw : w ≤ ds.length) :
    IsUnsigned (ds.take w ++ '.' :: ds.drop w) ⟨false, Nat.ofDigitChars 10 ds 0, (w : Int) - ds.length⟩ := by
  have hne : ds.take w ≠ [] := List.ne_nil_of_length_pos (by rw [List.length_take]; omega)
  have hpoint := IsUnsigned.point (b := ds.drop w) (fun c hc => h c (List.mem_of_mem_take hc)) hne
    (fun c hc => h c (List.mem_of_mem_drop hc)) .none
  have hexponent : (0 : Int) - (ds.drop w).length = w - ds.length := by
    rw [List.length_drop]
    omega
  rwa [List.append_nil, List.take_append_drop, hexponent] at hpoint

theorem isDigit_zeros (n : Nat) : ∀ c ∈ List.replicate n '0', c.isDigit = true := by
  intro c hc
  rw [List.eq_of_mem_replicate hc]
  rfl

/-- The point stands in front of the digits. -/
theorem isUnsigned_before (h : ∀ c ∈ ds, c.isDigit = true) (zeros : Nat) :
    IsUnsigned (['0', '.'] ++ List.replicate zeros '0' ++ ds)
      ⟨false, Nat.ofDigitChars 10 ds 0, -((zeros : Int) + ds.length)⟩ := by
  have hdigits : ∀ c ∈ List.replicate zeros '0' ++ ds, c.isDigit = true :=
    List.forall_mem_append.2 ⟨isDigit_zeros zeros, h⟩
  have hpoint := IsUnsigned.point (a := ['0']) (by simp) (by simp) hdigits .none
  have hvalue : Nat.ofDigitChars 10 (['0'] ++ (List.replicate zeros '0' ++ ds)) 0 = Nat.ofDigitChars 10 ds 0 := by
    rw [Nat.ofDigitChars_append, Nat.ofDigitChars_append, Nat.ofDigitChars_replicate_zero]
    rfl
  have hexponent : (0 : Int) - (List.replicate zeros '0' ++ ds).length = -((zeros : Int) + ds.length) := by
    rw [List.length_append, List.length_replicate]
    omega
  rwa [List.append_nil, hvalue, hexponent] at hpoint

/-- Digits of which the first one stands in front of the point, with a power behind them. -/
def scientific (ds power : List Char) : List Char :=
  match ds with
  | [] => []
  | [d] => d :: power
  | d :: r => d :: '.' :: r ++ power

theorem isUnsigned_scientific (h : ∀ c ∈ ds, c.isDigit = true) (hne : ds ≠ []) (hp : IsPower p k) :
    IsUnsigned (scientific ds p) ⟨false, Nat.ofDigitChars 10 ds 0, k + 1 - ds.length⟩ := by
  match ds with
  | [] => exact absurd rfl hne
  | [c] =>
    have hexponent : k + 1 - [c].length = k := by simp
    rw [hexponent]
    exact .whole h hne hp
  | c :: e :: r =>
    obtain ⟨hc, hr⟩ := List.forall_mem_cons.1 h
    have hexponent : k + 1 - (c :: e :: r).length = k - (e :: r).length := by
      simp only [List.length_cons]
      omega
    rw [hexponent]
    exact .point (a := [c]) (by simpa using hc) (by simp) hr hp

theorem dropTrailingZeros_append (ds : List Char) :
    (dropTrailingZeros ds).1 ++ List.replicate (dropTrailingZeros ds).2 '0' = ds := by
  have hzeros : List.replicate (ds.reverse.takeWhile (· == '0')).length '0' = ds.reverse.takeWhile (· == '0') := by
    refine (List.eq_replicate_iff.2 ⟨rfl, fun c hc => ?_⟩).symm
    have hzero : (c == '0') = true := List.mem_takeWhile_imp (p := (· == '0')) hc
    exact beq_iff_eq.1 hzero
  calc (ds.reverse.dropWhile (· == '0')).reverse ++
        List.replicate (ds.reverse.takeWhile (· == '0')).length '0'
      = (ds.reverse.dropWhile (· == '0')).reverse ++ (ds.reverse.takeWhile (· == '0')).reverse := by
        rw [← hzeros, List.length_replicate, List.reverse_replicate]
    _ = ds := by rw [← List.reverse_append, List.takeWhile_append_dropWhile, List.reverse_reverse]

/-- The digits of a number without the zeros at their end. -/
theorem dropTrailingZeros_decimalDigits {n zeros : Nat}
    (h : dropTrailingZeros (decimalDigits n) = (ds, zeros)) :
    (∀ c ∈ ds, c.isDigit = true) ∧ (n ≠ 0 → ds ≠ []) ∧ Nat.ofDigitChars 10 ds 0 * 10 ^ zeros = n := by
  have hdigits : ds ++ List.replicate zeros '0' = decimalDigits n := by
    simpa only [h] using dropTrailingZeros_append (decimalDigits n)
  have hvalue : Nat.ofDigitChars 10 ds 0 * 10 ^ zeros = n := by
    calc Nat.ofDigitChars 10 ds 0 * 10 ^ zeros = Nat.ofDigitChars 10 (ds ++ List.replicate zeros '0') 0 := by
          rw [Nat.ofDigitChars_append, Nat.ofDigitChars_replicate_zero, Nat.mul_comm]
      _ = n := by rw [hdigits, decimalDigits, Nat.ofDigitChars_ten_toDigits]
  refine ⟨fun c hc => ?_, ?_, hvalue⟩
  · exact Nat.isDigit_of_mem_toDigits (by omega) (by omega)
      ((hdigits ▸ List.mem_append_left _ hc : c ∈ decimalDigits n))
  · rintro hn rfl
    rw [Nat.ofDigitChars_nil, Nat.zero_mul] at hvalue
    exact hn hvalue.symm

theorem isDigit_decimalDigits (n : Nat) : ∀ c ∈ decimalDigits n, c.isDigit = true :=
  fun _ hc => Nat.isDigit_of_mem_toDigits (by omega) (by omega) hc

end Layout

end Solwright.Number
