import Solwright.Number.Shortest
import Solwright.Proofs.Number.Value

/-! Rounding to the nearest double depends on the value alone, not on the ratio or the numeral that it is given by,
and what is a double already is rounded to itself. So the shortest numeral of a double is read as that double. -/

namespace Solwright.Number

/-- The number that a numeral stands for. -/
def Numeral.value (n : Numeral) : ℚ := n.digits * 10 ^ n.exponent

theorem roundRatio_mul {n d c : Nat} (hc : 0 < c) : roundRatio (n * c) (d * c) = roundRatio n d := by
  have hless : d * c < 2 * (n % d * c) ↔ d < 2 * (n % d) := by
    rw [← Nat.mul_assoc]
    exact Nat.mul_lt_mul_right hc
  have hequal : d * c = 2 * (n % d * c) ↔ d = 2 * (n % d) := by
    rw [← Nat.mul_assoc]
    exact Nat.mul_left_inj (Nat.ne_of_gt hc)
  unfold roundRatio
  rw [Nat.mul_div_mul_right n d hc, Nat.mul_mod_mul_right]
  simp only [hless, hequal, beq_iff_eq, Bool.or_eq_true, decide_eq_true_eq, Bool.and_eq_true]

variable {num den num' den' : Nat}

theorem roundRatio_congr (hden : 0 < den) (hden' : 0 < den') (h : num * den' = num' * den) :
    roundRatio num den = roundRatio num' den' := by
  rw [← roundRatio_mul hden', ← roundRatio_mul (n := num') hden, h, Nat.mul_comm den]

theorem roundRatio_self (m : Nat) {c : Nat} (hc : 0 < c) : roundRatio (m * c) c = m := by
  calc roundRatio (m * c) c = roundRatio (m * c) (1 * c) := by rw [Nat.one_mul]
    _ = roundRatio m 1 := roundRatio_mul hc
    _ = m := by simp [roundRatio, Nat.mod_one]

theorem roundRatio_of_small (h : 2 * num < den) : roundRatio num den = 0 := by
  have hlt : num < den := by omega
  simp only [roundRatio, Nat.div_eq_of_lt hlt, Nat.mod_eq_of_lt hlt]
  simp
  omega

namespace Binary64

theorem pow_le_ratio_iff (hden : 0 < den) (l : Int) :
    den * Nat.pow 2 l.toNat ≤ num * Nat.pow 2 (-l).toNat ↔ (2 : ℚ) ^ l ≤ num / den := by
  have hden' : (0 : ℚ) < den := by exact_mod_cast hden
  rw [zpow_eq_div two_ne_zero, div_le_div_iff₀ (by positivity) hden', mul_comm ((2 : ℚ) ^ l.toNat)]
  exact_mod_cast Iff.rfl

/-- The leading bit of a ratio is the power of two below it. -/
theorem leadingBit_spec (hnum : 0 < num) (hden : 0 < den) :
    (2 : ℚ) ^ leadingBit num den ≤ num / den ∧ (num : ℚ) / den < 2 ^ (leadingBit num den + 1) := by
  have hnum' : (0 : ℚ) < num := by exact_mod_cast hnum
  have hden' : (0 : ℚ) < den := by exact_mod_cast hden
  have habove : (num : ℚ) / den < 2 ^ ((num.log2 : Int) - den.log2 + 1) := by
    have hnumlt : (num : ℚ) < 2 ^ (num.log2 + 1) := by exact_mod_cast Nat.lt_log2_self
    have hdenle : (2 : ℚ) ^ den.log2 ≤ den := by exact_mod_cast Nat.log2_self_le (Nat.ne_of_gt hden)
    calc (num : ℚ) / den < 2 ^ (num.log2 + 1) / 2 ^ den.log2 :=
          div_lt_div₀ hnumlt hdenle (by positivity) (by positivity)
      _ = 2 ^ ((num.log2 : Int) - den.log2 + 1) := by
        rw [← zpow_natCast, ← zpow_natCast, ← zpow_sub₀ two_ne_zero]
        congr 1
        push_cast
        ring
  have hbelow : (2 : ℚ) ^ ((num.log2 : Int) - den.log2 - 1) ≤ num / den := by
    have hnumle : (2 : ℚ) ^ num.log2 ≤ num := by exact_mod_cast Nat.log2_self_le (Nat.ne_of_gt hnum)
    have hdenlt : (den : ℚ) ≤ 2 ^ (den.log2 + 1) := by exact_mod_cast Nat.lt_log2_self.le
    calc (2 : ℚ) ^ ((num.log2 : Int) - den.log2 - 1) = 2 ^ num.log2 / 2 ^ (den.log2 + 1) := by
          rw [← zpow_natCast, ← zpow_natCast, ← zpow_sub₀ two_ne_zero]
          congr 1
          push_cast
          ring
      _ ≤ num / den := div_le_div₀ hnum'.le hnumle hden' hdenlt
  unfold leadingBit
  dsimp only
  split
  next h => exact ⟨(pow_le_ratio_iff hden _).1 h, habove⟩
  next h =>
    refine ⟨hbelow, ?_⟩
    rw [sub_add_cancel]
    exact not_le.1 (mt (pow_le_ratio_iff hden _).2 h)

theorem leadingBit_unique {l : Int} (hnum : 0 < num) (hden : 0 < den) (hle : (2 : ℚ) ^ l ≤ num / den)
    (hlt : (num : ℚ) / den < 2 ^ (l + 1)) : leadingBit num den = l := by
  obtain ⟨hle', hlt'⟩ := leadingBit_spec hnum hden
  have hlower : l < leadingBit num den + 1 := (zpow_lt_zpow_iff_right₀ one_lt_two).1 (hle.trans_lt hlt')
  have hupper : leadingBit num den < l + 1 := (zpow_lt_zpow_iff_right₀ one_lt_two).1 (hle'.trans_lt hlt)
  omega

/-- Ratios of one value are rounded to one double. -/
theorem ofRatio_congr (s : Bool) (hden : 0 < den) (hden' : 0 < den') (h : num * den' = num' * den) :
    ofRatio s num den = ofRatio s num' den' := by
  by_cases hnum : num = 0
  · have hnum' : num' = 0 := by
      subst hnum
      rw [Nat.zero_mul, eq_comm, Nat.mul_eq_zero] at h
      exact h.resolve_right (Nat.ne_of_gt hden)
    rw [ofRatio, ofRatio, if_pos hnum, if_pos hnum']
  have hnum' : num' ≠ 0 := by
    rintro rfl
    rw [Nat.zero_mul, Nat.mul_eq_zero] at h
    exact h.elim hnum (Nat.ne_of_gt hden')
  have hratio : (num : ℚ) / den = num' / den' := by
    rw [div_eq_div_iff (by exact_mod_cast Nat.ne_of_gt hden) (by exact_mod_cast Nat.ne_of_gt hden')]
    exact_mod_cast h
  have hbit : leadingBit num den = leadingBit num' den' := by
    obtain ⟨hle, hlt⟩ := leadingBit_spec (Nat.pos_of_ne_zero hnum') hden'
    exact leadingBit_unique (Nat.pos_of_ne_zero hnum) hden (hratio ▸ hle) (hratio ▸ hlt)
  have hround : ∀ i j : Nat, roundRatio (num * Nat.pow 2 i) (den * Nat.pow 2 j) =
      roundRatio (num' * Nat.pow 2 i) (den' * Nat.pow 2 j) := by
    intro i j
    have hpow : 0 < Nat.pow 2 j := Nat.two_pow_pos j
    generalize Nat.pow 2 i = x
    generalize Nat.pow 2 j = y at hpow
    refine roundRatio_congr (Nat.mul_pos hden hpow) (Nat.mul_pos hden' hpow) ?_
    calc num * x * (den' * y) = num * den' * (x * y) := by ring
      _ = num' * den * (x * y) := by rw [h]
      _ = num' * x * (den * y) := by ring
  rw [ofRatio, ofRatio, if_neg hnum, if_neg hnum', hbit]
  dsimp only
  rw [hround]

theorem ofParts_zero (s : Bool) : ofParts s 0 (-1074) = zero s := rfl

theorem ofParts_of_lt (s : Bool) (m : Nat) {e : Int} (h : 971 < e) : ofParts s m e = .infinite s := by
  refine dif_neg ?_
  rintro (⟨-, he⟩ | ⟨-, -, -, he⟩) <;> omega

theorem twice_lt_of_pow {j : Nat} (hnum : 0 < num) (h : num * 2 ^ (j + 2) ≤ den) :
    2 * (num * Nat.pow 2 j) < den * Nat.pow 2 0 := by
  have hpos : 0 < num * 2 ^ j := by positivity
  calc 2 * (num * 2 ^ j) < 4 * (num * 2 ^ j) := by omega
    _ = num * 2 ^ (j + 2) := by ring
    _ ≤ den := h
    _ = den * 1 := (Nat.mul_one den).symm

/-- What is smaller than half the smallest double is rounded to zero. -/
theorem ofRatio_of_small (s : Bool) (hden : 0 < den) (h : num * 2 ^ (1074 + 2) ≤ den) :
    ofRatio s num den = zero s := by
  by_cases hnum : num = 0
  · rw [ofRatio, if_pos hnum]
  have hbit : leadingBit num den < -1075 := by
    obtain ⟨hle, -⟩ := leadingBit_spec (Nat.pos_of_ne_zero hnum) hden
    have hratio : (num : ℚ) / den ≤ 2 ^ (-(1074 + 2 : Nat) : Int) := by
      rw [zpow_neg, zpow_natCast, div_le_iff₀ (by exact_mod_cast hden), ← div_eq_inv_mul,
        le_div_iff₀ (by positivity)]
      exact_mod_cast h
    have hlt : (2 : ℚ) ^ (-(1074 + 2 : Nat) : Int) < 2 ^ (-1075 : Int) := zpow_lt_zpow_right₀ one_lt_two (by omega)
    exact (zpow_lt_zpow_iff_right₀ one_lt_two).1 ((hle.trans hratio).trans_lt hlt)
  have hexponent : max (leadingBit num den - 52) (-1074) = -1074 := by omega
  have hsmall := twice_lt_of_pow (j := 1074) (Nat.pos_of_ne_zero hnum) h
  rw [ofRatio, if_neg hnum, hexponent]
  dsimp only
  rw [show (-(-1074 : Int)).toNat = 1074 from rfl, show (-1074 : Int).toNat = 0 from rfl,
    roundRatio_of_small hsmall, if_neg (Nat.ne_of_lt (Nat.two_pow_pos 53)), ofParts_zero]

/-- What is greater than all doubles is rounded to infinity. -/
theorem ofRatio_of_large (s : Bool) (hden : 0 < den) (h : den * 2 ^ 1024 ≤ num) :
    ofRatio s num den = .infinite s := by
  have hnum : 0 < num := Nat.lt_of_lt_of_le (by positivity) h
  have hbit : 1023 < leadingBit num den := by
    obtain ⟨-, hlt⟩ := leadingBit_spec hnum hden
    have hratio : (2 : ℚ) ^ (1024 : Int) ≤ num / den := by
      rw [le_div_iff₀ (by exact_mod_cast hden), mul_comm]
      exact_mod_cast h
    have hpow := (zpow_lt_zpow_iff_right₀ one_lt_two).1 (hratio.trans_lt hlt)
    omega
  have hexponent : 971 < max (leadingBit num den - 52) (-1074) := by omega
  rw [ofRatio, if_neg (Nat.ne_of_gt hnum)]
  dsimp only
  rw [ofParts_of_lt s _ hexponent, ofParts_of_lt s _ (by omega), ite_self]

/-- The exponent that a double is rounded with is its own. -/
theorem exponent_of_canonical {m : Nat} {e : Int} (h : Canonical m e) (hm : 0 < m) :
    max (leadingBit (m * Nat.pow 2 e.toNat) (Nat.pow 2 (-e).toNat) - 52) (-1074) = e := by
  have hpow : ∀ i, 0 < Nat.pow 2 i := Nat.two_pow_pos
  have hnum : 0 < m * Nat.pow 2 e.toNat := Nat.mul_pos hm (hpow _)
  have hvalue : ((m * Nat.pow 2 e.toNat : Nat) : ℚ) / (Nat.pow 2 (-e).toNat : Nat) = m * 2 ^ e := by
    rw [zpow_eq_div two_ne_zero, Nat.pow_eq, Nat.pow_eq]
    push_cast
    exact mul_div_assoc ..
  obtain ⟨hbits, rfl⟩ | ⟨hlow, hbits, helow, -⟩ := h
  · have habove : (m : ℚ) * 2 ^ (-1074 : Int) < 2 ^ (-1022 : Int) := by
      have hm' : (m : ℚ) < 2 ^ (52 : Int) := by exact_mod_cast hbits
      calc (m : ℚ) * 2 ^ (-1074 : Int) < 2 ^ (52 : Int) * 2 ^ (-1074 : Int) :=
            mul_lt_mul_of_pos_right hm' (by positivity)
        _ = 2 ^ (-1022 : Int) := (zpow_add₀ two_ne_zero 52 (-1074)).symm
    obtain ⟨hle, -⟩ := leadingBit_spec hnum (hpow (-(-1074 : Int)).toNat)
    rw [hvalue] at hle
    have hbit := (zpow_lt_zpow_iff_right₀ one_lt_two).1 (hle.trans_lt habove)
    omega
  · have hm' : (2 : ℚ) ^ (52 : Int) ≤ m := by exact_mod_cast hlow
    have hm'' : (m : ℚ) < 2 ^ (53 : Int) := by exact_mod_cast hbits
    have hpos : (0 : ℚ) < 2 ^ e := by positivity
    have hbit : leadingBit (m * Nat.pow 2 e.toNat) (Nat.pow 2 (-e).toNat) = 52 + e := by
      refine leadingBit_unique hnum (hpow _) ?_ ?_
      · rw [hvalue, zpow_add₀ two_ne_zero]
        exact mul_le_mul_of_nonneg_right hm' hpos.le
      · rw [hvalue, show 52 + e + 1 = 53 + e by ring, zpow_add₀ two_ne_zero]
        exact mul_lt_mul_of_pos_right hm'' hpos
    omega

/-- A double is rounded to itself. -/
theorem ofRatio_of_canonical (s : Bool) {m : Nat} {e : Int} (h : Canonical m e) :
    ofRatio s (m * Nat.pow 2 e.toNat) (Nat.pow 2 (-e).toNat) = ofParts s m e := by
  have hpow : ∀ i, 0 < Nat.pow 2 i := Nat.two_pow_pos
  by_cases hm : m = 0
  · obtain ⟨-, rfl⟩ | ⟨hlow, -⟩ := h
    · rw [hm, Nat.zero_mul, ofParts_zero]
      exact if_pos rfl
    · rw [hm] at hlow
      exact absurd hlow (Nat.not_le.2 (hpow 52))
  have hnum : m * Nat.pow 2 e.toNat ≠ 0 := Nat.mul_ne_zero hm (Nat.ne_of_gt (hpow _))
  have hround : roundRatio (m * Nat.pow 2 e.toNat * Nat.pow 2 (-e).toNat)
      (Nat.pow 2 (-e).toNat * Nat.pow 2 e.toNat) = m := by
    rw [Nat.mul_assoc, Nat.mul_comm (Nat.pow 2 (-e).toNat)]
    exact roundRatio_self m (Nat.mul_pos (hpow _) (hpow _))
  have hlow : m ≠ Nat.pow 2 53 := by
    obtain ⟨hm, -⟩ | ⟨-, hm, -⟩ := h
    · exact Nat.ne_of_lt (Nat.lt_trans hm (by decide))
    · exact Nat.ne_of_lt hm
  rw [ofRatio, if_neg hnum, exponent_of_canonical h (Nat.pos_of_ne_zero hm)]
  dsimp only
  rw [hround, if_neg hlow]

/-- A number with so many binary digits has a third as many decimal ones at most. -/
theorem lt_pow_log2 (d : Nat) : d < 10 ^ (d.log2 / 3 + 1) :=
  calc d < 2 ^ (d.log2 + 1) := Nat.lt_log2_self
    _ ≤ 2 ^ (3 * (d.log2 / 3 + 1)) := Nat.pow_le_pow_right (by omega) (by omega)
    _ = 8 ^ (d.log2 / 3 + 1) := Nat.pow_mul 2 3 _
    _ ≤ 10 ^ (d.log2 / 3 + 1) := Nat.pow_le_pow_left (by omega) _

theorem two_pow_le_ten_pow : 2 ^ 1024 ≤ 10 ^ 311 ∧ 2 ^ (1074 + 2) ≤ 10 ^ 331 := by decide +kernel

/-- A numeral is rounded as its value is, however far out of range that is. -/
theorem ofDecimal_eq (s : Bool) (d : Nat) (k : Int) :
    ofDecimal s d k = ofRatio s (d * Nat.pow 10 k.toNat) (Nat.pow 10 (-k).toNat) := by
  have hpow : ∀ i, 0 < Nat.pow 10 i := fun i => Nat.pow_pos (by omega)
  unfold ofDecimal
  split
  next h =>
    by_cases hd : d = 0
    · rw [hd, Nat.zero_mul]
      exact (if_pos rfl).symm
    have hk : k + (d.log2 / 3 + 1 : Nat) < -330 := by simpa [hd] using h
    have hzero : k.toNat = 0 := by omega
    refine (ofRatio_of_small s (hpow _) ?_).symm
    rw [hzero, Nat.pow_eq, Nat.pow_eq, Nat.pow_zero, Nat.mul_one]
    calc d * 2 ^ (1074 + 2) ≤ 10 ^ (d.log2 / 3 + 1) * 10 ^ 331 :=
          Nat.mul_le_mul (lt_pow_log2 d).le two_pow_le_ten_pow.2
      _ = 10 ^ (d.log2 / 3 + 1 + 331) := (pow_add 10 (d.log2 / 3 + 1) 331).symm
      _ ≤ 10 ^ (-k).toNat := Nat.pow_le_pow_right (by omega) (by omega)
  next h =>
  split
  next hk =>
    have hd : 0 < d := Nat.pos_of_ne_zero fun hd => h (by simp [hd])
    have hzero : (-k).toNat = 0 := by omega
    refine (ofRatio_of_large s (hpow _) ?_).symm
    rw [hzero, Nat.pow_eq, Nat.pow_eq, Nat.pow_zero, Nat.one_mul]
    calc 2 ^ 1024 ≤ 10 ^ 311 := two_pow_le_ten_pow.1
      _ ≤ 10 ^ k.toNat := pow_le_pow_right₀ (by omega) (by omega)
      _ ≤ d * 10 ^ k.toNat := Nat.le_mul_of_pos_left _ hd
  next => rfl

/-- Numerals of one value are rounded to one double. -/
theorem ofDecimal_congr (s : Bool) {d d' : Nat} {k k' : Int} (h : (d : ℚ) * 10 ^ k = d' * 10 ^ k') :
    ofDecimal s d k = ofDecimal s d' k' := by
  have hpow : ∀ i, 0 < Nat.pow 10 i := fun i => Nat.pow_pos (by omega)
  rw [ofDecimal_eq, ofDecimal_eq]
  refine ofRatio_congr s (hpow _) (hpow _) ?_
  rw [zpow_eq_div (by norm_num), zpow_eq_div (by norm_num), ← mul_div_assoc, ← mul_div_assoc,
    div_eq_div_iff (by positivity) (by positivity)] at h
  exact_mod_cast h

/-- A double with another sign. -/
def withSign (s : Bool) : Binary64 → Binary64
  | finite _ m e h => finite s m e h
  | infinite _ => infinite s
  | nan => nan

theorem ofParts_sign (s : Bool) (m : Nat) (e : Int) : ofParts s m e = withSign s (ofParts false m e) := by
  unfold ofParts
  split <;> rfl

theorem ofDecimal_sign (s : Bool) (d : Nat) (k : Int) : ofDecimal s d k = withSign s (ofDecimal false d k) := by
  have hratio : ∀ num den, ofRatio s num den = withSign s (ofRatio false num den) := by
    intro num den
    unfold ofRatio
    split
    · rfl
    dsimp only
    split <;> exact ofParts_sign s _ _
  rw [ofDecimal_eq, hratio, ← ofDecimal_eq]

theorem ofParts_of_canonical (s : Bool) {m : Nat} {e : Int} (h : Canonical m e) :
    ofParts s m e = finite s m e h := dif_pos h

end Binary64

/-- What is found of a length reads back. -/
theorem reads_of_numeralOfLength? {v : Binary64} {place : Int} {length : Nat} {n : Numeral}
    (h : numeralOfLength? v num den place length = some n) : n.reads v = true := by
  unfold numeralOfLength? at h
  dsimp only at h
  split at h
  next hbelow habove =>
    split at h
    · exact Option.some.inj h ▸ hbelow
    · exact Option.some.inj h ▸ habove
  next hbelow _ => exact Option.some.inj h ▸ hbelow
  next _ habove => exact Option.some.inj h ▸ habove
  next => cases h

theorem ofDecimal_exactNumeral {m : Nat} {e : Int} (h : Canonical m e) :
    Binary64.ofDecimal false (exactNumeral m e).digits (exactNumeral m e).exponent = .ofParts false m e := by
  have hpow : ∀ b i, 0 < b → 0 < Nat.pow b i := fun b i hb => Nat.pow_pos hb
  have hexponent : (min e 0).toNat = 0 ∧ (-min e 0).toNat = (-e).toNat := by omega
  rw [Binary64.ofDecimal_eq, ← Binary64.ofRatio_of_canonical false h, exactNumeral]
  dsimp only
  rw [hexponent.1, hexponent.2]
  refine Binary64.ofRatio_congr false (hpow _ _ (by omega)) (hpow _ _ (by omega)) ?_
  simp only [Nat.pow_eq, Nat.pow_zero, Nat.mul_one]
  rw [Nat.mul_right_comm, Nat.mul_assoc, ← Nat.mul_pow]

/-- The written numeral of a double reads back, whether a short one was found or not. -/
theorem ofDecimal_shortestNumeral {m : Nat} {e : Int} (h : Canonical m e) :
    Binary64.ofDecimal false (shortestNumeral m e).digits (shortestNumeral m e).exponent = .ofParts false m e := by
  unfold shortestNumeral
  dsimp only
  cases hfound : (List.range 17).findSome? fun i => numeralOfLength? (.ofParts false m e)
      (m * Nat.pow 2 e.toNat) (Nat.pow 2 (-e).toNat) (pointPlace (m * Nat.pow 2 e.toNat) (Nat.pow 2 (-e).toNat))
      (i + 1) with
  | none => exact ofDecimal_exactNumeral h
  | some n =>
    obtain ⟨i, -, hi⟩ := List.exists_of_findSome?_eq_some hfound
    exact beq_iff_eq.1 (reads_of_numeralOfLength? hi)

end Solwright.Number
