import Solwright.Deployment.Payload
import Solwright.Proofs.Compiler.Shape
import Solwright.Proofs.Number.Reading

/-! What a deployment costs. A whole price in gwei becomes wei exactly, and the ether that is written of an amount
of wei reads back as that amount, whichever form it is written in. -/

namespace Solwright

open Solwright.Number

namespace Wei

theorem largest_eq : largest = 2 ^ 256 - 1 := rfl

theorem digitCount_le {n k : Nat} (hk : 0 < k) (h : n < 10 ^ k) : digitCount n ≤ k := by
  unfold digitCount
  split
  next => exact Nat.zero_le k
  next => exact (Nat.length_toDigits_le_iff (by omega) hk).2 h

/-- An amount that is in range is as short as all work with amounts allows. -/
theorem digitCount_le_of_le_largest {n : Nat} (h : n ≤ largest) : digitCount n ≤ 78 :=
  digitCount_le (by omega) (Nat.lt_of_le_of_lt h (by decide))

theorem rounded_of_le {n : Nat} {e : Int} (hn : digitCount n ≤ workingDigits) (he : 0 ≤ e) :
    rounded workingDigits n e = (n, e) := by
  have hpower : (smallestPower workingDigits - e).toNat = 0 := by
    have hsmallest : smallestPower workingDigits = -1000997 := rfl
    omega
  have hdigits : digitCount n - workingDigits = 0 := Nat.sub_eq_zero_of_le hn
  rw [rounded, hpower, hdigits]
  rfl

theorem pow_le_of_digitCount {n : Nat} (hn : n ≠ 0) : 0 < digitCount n ∧ 10 ^ (digitCount n - 1) ≤ n := by
  rw [digitCount, if_neg hn]
  have hpos : 0 < (decimalDigits n).length := List.length_pos_iff.2 Nat.toDigits_ne_nil
  refine ⟨hpos, ?_⟩
  by_cases hone : (decimalDigits n).length = 1
  · rw [hone]
    exact Nat.pos_of_ne_zero hn
  · by_contra hlt
    have hle := (Nat.length_toDigits_le_iff (by omega) (by omega)).2 (Nat.not_le.1 hlt)
    rw [← decimalDigits] at hle
    omega

/-- A whole number with zeros behind it is its own amount, as long as it is in range. -/
theorem amount_eq {n e : Nat} (h : n * 10 ^ e ≤ largest) : amount false n e = .ok (n * 10 ^ e) := by
  have hn : n ≤ largest := Nat.le_trans (Nat.le_mul_of_pos_right n (by positivity)) h
  have hrounded : rounded workingDigits n e = (n, (e : Int)) :=
    rounded_of_le (Nat.le_trans (digitCount_le_of_le_largest hn) (by decide)) (Int.natCast_nonneg e)
  rw [amount, hrounded]
  dsimp only
  by_cases hzero : n = 0
  · rw [if_pos hzero, hzero, Nat.zero_mul]
  obtain ⟨hpos, hpow⟩ := pow_le_of_digitCount hzero
  have hleading : digitCount n - 1 + e < 78 := by
    by_contra hlong
    have hlarge : 10 ^ 78 ≤ n * 10 ^ e :=
      calc 10 ^ 78 ≤ 10 ^ (digitCount n - 1 + e) := Nat.pow_le_pow_right (by omega) (by omega)
        _ = 10 ^ (digitCount n - 1) * 10 ^ e := Nat.pow_add ..
        _ ≤ n * 10 ^ e := Nat.mul_le_mul_right _ hpow
    exact absurd (Nat.le_trans hlarge h) (by decide)
  have hpower : largestPower = 999999 := rfl
  have hwhole : wholePart n e = n * 10 ^ e := by
    rw [wholePart, if_neg (by omega), Int.toNat_natCast, Int.toNat_neg_natCast]
    exact Nat.div_one _
  have hpart : n * Nat.pow 10 (e : Int).toNat % Nat.pow 10 (-(e : Int)).toNat = 0 := by
    rw [Int.toNat_neg_natCast]
    exact Nat.mod_one _
  rw [if_neg hzero, if_neg (by omega), hwhole, hpart, if_neg (by simp; omega)]
  exact if_neg (by simp [h])

/-- A whole price in gwei. -/
theorem ofPrice_int {g : Nat} (h : g * 10 ^ 9 ≤ largest) : ofPrice (.int g) = .ok (g * 10 ^ 9) := by
  have hsign : decide ((g : Int) < 0) = false := decide_eq_false (Int.not_lt.2 (Int.natCast_nonneg g))
  rw [ofPrice, hsign, Int.natAbs_natCast, ofGwei]
  dsimp only
  by_cases hg : g = 0
  · rw [if_pos hg, hg, Nat.zero_mul]
  have hone : belowOne ⟨false, g, 0⟩ = false := by
    have hpos := (pow_le_of_digitCount hg).1
    simp only [belowOne, Bool.false_or, decide_eq_false_iff_not]
    omega
  rw [if_neg hg, hone]
  exact amount_eq h

theorem inEther_eq {n : Nat} (h : n ≤ largest) : inEther n = .ok (String.ofList (etherText n)) := by
  have hrange : ((n : Int) < 0 || (largest : Int) < n) = false := by
    simp only [Bool.or_eq_false_iff, decide_eq_false_iff_not]
    omega
  rw [inEther, hrange]
  rfl

variable {n places : Nat} {ds : List Char}

/-- The digits that are written are those of the amount, but for eighteen places. -/
theorem etherDigits_spec (hn : n ≠ 0) (h : etherDigits n = (ds, places)) : (∀ c ∈ ds, c.isDigit = true) ∧
    ds ≠ [] ∧ Nat.ofDigitChars 10 ds 0 * 10 ^ 18 = n * 10 ^ places := by
  obtain ⟨ds', zeros, hds⟩ : ∃ ds' zeros, dropTrailingZeros (decimalDigits n) = (ds', zeros) := ⟨_, _, rfl⟩
  obtain ⟨hdigits, hne, hvalue⟩ := dropTrailingZeros_decimalDigits hds
  rw [etherDigits, hds] at h
  dsimp only at h
  split at h
  next hle =>
    obtain ⟨rfl, rfl⟩ := Prod.mk.inj h
    refine ⟨hdigits, hne hn, ?_⟩
    calc Nat.ofDigitChars 10 ds' 0 * 10 ^ 18
        = Nat.ofDigitChars 10 ds' 0 * 10 ^ zeros * 10 ^ (18 - zeros) := by
          rw [Nat.mul_assoc, ← Nat.pow_add, Nat.add_sub_cancel' hle]
      _ = n * 10 ^ (18 - zeros) := by rw [hvalue]
  next hlt =>
    obtain ⟨rfl, rfl⟩ := Prod.mk.inj h
    refine ⟨List.forall_mem_append.2 ⟨hdigits, isDigit_zeros _⟩, by simp [hne hn], ?_⟩
    calc Nat.ofDigitChars 10 (ds' ++ List.replicate (zeros - 18) '0') 0 * 10 ^ 18
        = Nat.ofDigitChars 10 ds' 0 * (10 ^ (zeros - 18) * 10 ^ 18) := by
          rw [Nat.ofDigitChars_append, Nat.ofDigitChars_replicate_zero]
          ring
      _ = n * 10 ^ 0 := by rw [← Nat.pow_add, Nat.sub_add_cancel (by omega), hvalue, Nat.pow_zero, Nat.mul_one]

/-- In every form in which ether is written, all digits are there, and the point is where it belongs. -/
theorem isUnsigned_etherText (hn : n ≠ 0) (h : etherDigits n = (ds, places)) :
    IsUnsigned (etherText n) ⟨false, Nat.ofDigitChars 10 ds 0, -(places : Int)⟩ := by
  obtain ⟨hdigits, hne, -⟩ := etherDigits_spec hn h
  have hlength : 0 < ds.length := List.length_pos_iff.2 hne
  rw [etherText, h]
  dsimp only
  rw [if_neg hn]
  split
  next hplaces =>
    have hwhole := IsUnsigned.whole hdigits hne .none
    rw [List.append_nil] at hwhole
    rwa [hplaces]
  next =>
  split
  next hinside =>
    have hexponent : ((ds.length - places : Nat) : Int) - ds.length = -places := by omega
    exact hexponent ▸ isUnsigned_inside hdigits (by omega) (by omega)
  next =>
  split
  next hbefore =>
    have hexponent : -(((places - ds.length : Nat) : Int) + ds.length) = -places := by omega
    exact hexponent ▸ isUnsigned_before hdigits (places - ds.length)
  next hbehind =>
    have hpower := IsPower.signed (e := 'E') true (.inr rfl) (isDigit_decimalDigits (places + 1 - ds.length))
      Nat.toDigits_ne_nil
    rw [decimalDigits, Nat.ofDigitChars_ten_toDigits, if_pos rfl, if_pos rfl] at hpower
    have hexponent : -((places + 1 - ds.length : Nat) : Int) + 1 - ds.length = -places := by omega
    exact hexponent ▸ isUnsigned_scientific hdigits hne hpower

example : String.ofList (etherText 530000000000) = "5.3E-7" := by decide

/-- Nothing of an amount is lost where it is written as ether. -/
theorem etherText_value (n : Nat) : ∃ d, IsUnsigned (etherText n) d ∧ d.value * 10 ^ 18 = n := by
  by_cases hn : n = 0
  · subst hn
    have hzero : IsUnsigned (['0'] ++ []) ⟨false, 0, 0⟩ := .whole (by simp) (by simp) .none
    exact ⟨_, hzero, by simp [Decimal.value]⟩
  obtain ⟨ds, places, h⟩ : ∃ ds places, etherDigits n = (ds, places) := ⟨_, _, rfl⟩
  refine ⟨_, isUnsigned_etherText hn h, ?_⟩
  have hvalue : (Nat.ofDigitChars 10 ds 0 : ℚ) * 10 ^ 18 = n * 10 ^ places := by
    exact_mod_cast (etherDigits_spec hn h).2.2
  simp only [Decimal.value, Bool.false_eq_true, if_false, one_mul, zpow_neg, zpow_natCast]
  rw [mul_right_comm, hvalue, mul_assoc, mul_inv_cancel₀ (by positivity), mul_one]

end Wei

namespace Deployment

open Wei

/-- With a whole price in gwei, and amounts in range, there is a summary for each payload. The price in it is exact,
and its cost is a numeral that is read as a number of ether of which exactly the gas times that price are wei. -/
theorem summary_exact {room : Nat} {a : Artifact} {n g : Nat} (hgas : a.gasEstimate = n)
    (hprice : g * 10 ^ 9 ≤ 2 ^ 256 - 1)
    (hcost : n * g * 10 ^ 9 ≤ 2 ^ 256 - 1) (r : Request) (chain : Json) :
    ((∃ fs, summary room a r (.int g) chain = .ok fs) ↔ ∃ data, payload room a r = .ok data) ∧
    ∀ fs, summary room a r (.int g) chain = .ok fs →
      fs.lookup (.formed "gas") = some (.int n) ∧ fs.lookup (.formed "gasPrice") = some (.int (g * 10 ^ 9 : Nat)) ∧
      ∃ cost d, fs.lookup (.formed "estimatedCostEth") = some (.str cost) ∧ IsUnsigned cost.toList d ∧
        decimal? asciiDigit? cost.toList = some d ∧ d.value * 10 ^ 18 = n * (g * 10 ^ 9) := by
  rw [← largest_eq] at hprice hcost
  have hwei : ofPrice (.int g) = .ok (g * 10 ^ 9) := ofPrice_int hprice
  have hether : inEther (a.gasEstimate * (g * 10 ^ 9 : Nat)) =
      .ok (String.ofList (etherText (n * (g * 10 ^ 9)))) := by
    rw [hgas, ← Int.natCast_mul]
    exact inEther_eq (by rwa [← Nat.mul_assoc])
  obtain ⟨d, hd, hvalue⟩ := etherText_value (n * (g * 10 ^ 9))
  have hsummary : summary room a r (.int g) chain = (payload room a r).map fun data =>
      (RawText.formed "data", Json.str data) :: ("gas", .int a.gasEstimate) :: ("gasPrice", .int (g * 10 ^ 9 : Nat)) ::
      ("estimatedCostEth", .str (String.ofList (etherText (n * (g * 10 ^ 9))))) :: ("sizeBytes", .int a.size) ::
      ("overSizeLimit", .bool a.tooLarge) :: if isGiven chain then [(.formed "chainId", chain)] else [] := by
    rw [summary, hwei]
    dsimp only [Except.bind]
    rw [hether]
    cases payload room a r with
    | error f => rfl
    | ok data => simp only [Except.map]
  rw [hsummary]
  constructor
  · cases payload room a r <;> simp [Except.map]
  · intro fs hfs
    obtain ⟨data, -, rfl⟩ := map_eq_ok.1 hfs
    rw [← String.toList_ofList (l := etherText (n * (g * 10 ^ 9)))] at hd
    refine ⟨?_, rfl, _, d, rfl, hd, hd.decimal?.1, ?_⟩
    · rw [← hgas]
      rfl
    · rw [hvalue]
      push_cast
      ring

/-- An amount so small that it is written with a power of ten. -/
theorem summary_exact_small :
    let a : Artifact := ⟨"Widget", "Widget.sol", some "0x6080", none, .arr [], 530, none, none, .null, .null, .null,
      .null, .null, .null, []⟩
    let r : Request := ⟨.custom, ⟨"Widget", by decide⟩, none, [], []⟩
    a.gasEstimate = (530 : Nat) ∧ 1 * 10 ^ 9 ≤ 2 ^ 256 - 1 ∧ 530 * 1 * 10 ^ 9 ≤ 2 ^ 256 - 1 ∧
    ∃ fs, summary 4096 a r (.int (1 : Nat)) .null = .ok fs ∧
      fs.lookup (.formed "gasPrice") = some (.int (1 * 10 ^ 9 : Nat)) ∧
      ∃ cost d, fs.lookup (.formed "estimatedCostEth") = some (.str cost) ∧ IsUnsigned cost.toList d ∧
        decimal? asciiDigit? cost.toList = some d ∧ d.value * 10 ^ 18 = (530 : Nat) * ((1 : Nat) * 10 ^ 9) := by
  intro a r
  obtain ⟨hreturns, hfields⟩ := summary_exact (a := a) (n := 530) (g := 1) rfl (by decide) (by decide) r .null
  have hpayload : (payload 4096 a r).toOption = some "0x6080" := by decide
  have hdata : ∃ data, payload 4096 a r = .ok data := by
    cases h : payload 4096 a r with
    | error f => simp [h, Except.toOption] at hpayload
    | ok data => exact ⟨data, rfl⟩
  obtain ⟨fs, hfs⟩ := hreturns.2 hdata
  obtain ⟨-, hprice, hcost⟩ := hfields fs hfs
  exact ⟨rfl, by decide, by decide, fs, hfs, hprice, hcost⟩

end Deployment

end Solwright
