import Mathlib.Data.List.Chain
import Solwright.Json.Writer
import Solwright.Proofs.Json.Backtick
import Solwright.Proofs.Text.Raw

/-! What is written of code points between quotes. It reads back as the same code points, unless the halves of a pair
stand side by side among them, which in a text that has been read they never do. -/

namespace Solwright.Json

open Solwright.Text

section Hexadecimal

theorem hexPadded_succ {w : Nat} (hw : 0 < w) (n : Nat) :
    hexPadded (w + 1) n = hexPadded w (n / 16) ++ [(n % 16).digitChar] := by
  obtain ⟨k, rfl⟩ : ∃ k, w = k + 1 := ⟨w - 1, by omega⟩
  unfold hexPadded
  by_cases hn : n < 16
  · have hzero : n / 16 = 0 := Nat.div_eq_of_lt hn
    rw [hzero, Nat.toDigits_of_lt_base hn, Nat.toDigits_of_lt_base (by omega), Nat.mod_eq_of_lt hn]
    simp [List.replicate_succ']
  · rw [Nat.toDigits_of_base_le (by omega) (Nat.not_lt.1 hn)]
    dsimp only
    rw [List.length_append, List.length_singleton, Nat.add_sub_add_right, List.append_assoc]

theorem hexPadded_one {n : Nat} (h : n < 16) : hexPadded 1 n = [n.digitChar] := by
  rw [hexPadded, Nat.toDigits_of_lt_base h]
  rfl

theorem hexValue?_digitChar : ∀ n < 16, hexValue? n.digitChar = some n := by decide

/-- Four digits give the unit back that they are written for. -/
theorem unit?_hexPadded {n : Nat} (h : n < 0x10000) :
    ∃ a b c d, hexPadded 4 n = [a, b, c, d] ∧ unit? a b c d = some n := by
  have hdigits : hexPadded 4 n =
      [(n / 16 / 16 / 16).digitChar, (n / 16 / 16 % 16).digitChar, (n / 16 % 16).digitChar, (n % 16).digitChar] := by
    rw [hexPadded_succ (by omega), hexPadded_succ (by omega), hexPadded_succ (by omega), hexPadded_one (by omega)]
    rfl
  refine ⟨_, _, _, _, hdigits, ?_⟩
  rw [unit?, hexValue?_digitChar _ (by omega), hexValue?_digitChar _ (by omega), hexValue?_digitChar _ (by omega),
    hexValue?_digitChar _ (by omega)]
  refine congrArg some ?_
  omega

theorem hexValue?_lt {c : Char} {n : Nat} (h : hexValue? c = some n) : n < 16 := by
  unfold hexValue? at h
  simp only [Bool.and_eq_true, decide_eq_true_eq] at h
  have hlast : '9'.toNat = 57 ∧ 'f'.toNat = 102 ∧ 'F'.toNat = 70 := ⟨rfl, rfl, rfl⟩
  have hfirst : '0'.toNat = 48 ∧ 'a'.toNat = 97 ∧ 'A'.toNat = 65 := ⟨rfl, rfl, rfl⟩
  split at h
  · cases h
    omega
  split at h
  · cases h
    omega
  split at h
  · cases h
    omega
  · cases h

theorem unit?_lt {a b c d : Char} {n : Nat} (h : unit? a b c d = some n) : n < 0x10000 := by
  simp only [unit?, Option.bind_eq_bind, Option.bind_eq_some_iff, Option.pure_def, Option.some.injEq] at h
  obtain ⟨w, hw, x, hx, y, hy, z, hz, rfl⟩ := h
  obtain ⟨hw16, hx16, hy16, hz16⟩ : w < 16 ∧ x < 16 ∧ y < 16 ∧ z < 16 :=
    ⟨hexValue?_lt hw, hexValue?_lt hx, hexValue?_lt hy, hexValue?_lt hz⟩
  omega

end Hexadecimal

/-- Two code points that do not make a pair. -/
def Apart (m n : Nat) : Prop := ¬(isHighHalf m = true ∧ isLowHalf n = true)

/-- The code points of a text: no first half of a pair stands in front of a second one. -/
structure AreCodes (ns : List Nat) : Prop where
  bound : ∀ n ∈ ns, n < 0x110000
  apart : ns.IsChain Apart

variable {ns ms : List Nat} {body r r' : List Char} {n : Nat}

theorem pushUnit_of_apart (h : ∀ m ∈ ns.head?, Apart m n) : pushUnit n ns = n :: ns := by
  cases ns with
  | nil => rfl
  | cons m ns => exact if_neg fun hpair => h m rfl (Bool.and_eq_true_iff.1 hpair)

section Write

theorem Spells.unitEscape (hn : n < 0x10000) (happart : ∀ m ∈ ns.head?, Apart m n) (h : Spells body (n :: ns) ms) :
    Spells (unitEscape n ++ body) ns ms := by
  obtain ⟨a, b, c, d, hdigits, hunit⟩ := unit?_hexPadded hn
  rw [Json.unitEscape, hdigits]
  exact .unit hunit (by rwa [pushUnit_of_apart happart])

/-- A character that has two units is read as one character again. -/
theorem Spells.pairEscape (hlow : 0x10000 ≤ n) (hn : n < 0x110000) (h : Spells body (n :: ns) ms) :
    Spells (Json.unitEscape (0xD800 + (n - 0x10000) / 0x400) ++
      (Json.unitEscape (0xDC00 + (n - 0x10000) % 0x400) ++ body)) ns ms := by
  obtain ⟨q, hq⟩ : ∃ q, (n - 0x10000) / 0x400 = q := ⟨_, rfl⟩
  obtain ⟨k, hk⟩ : ∃ k, (n - 0x10000) % 0x400 = k := ⟨_, rfl⟩
  rw [hq, hk]
  have hfirst : ∀ m, Apart m (0xD800 + q) := by
    rintro m ⟨-, hlow⟩
    simp only [isLowHalf, Bool.and_eq_true, decide_eq_true_eq] at hlow
    omega
  have hpair : pushUnit (0xDC00 + k) ((0xD800 + q) :: ns) = n :: ns := by
    have hhalves : (isHighHalf (0xD800 + q) && isLowHalf (0xDC00 + k)) = true := by
      simp only [isHighHalf, isLowHalf, Bool.and_eq_true, decide_eq_true_eq]
      omega
    have hsum : 0x10000 + (0xD800 + q - 0xD800) * 0x400 + (0xDC00 + k - 0xDC00) = n := by omega
    rw [pushUnit, if_pos hhalves, hsum]
  refine .unitEscape (by omega) (fun m _ => hfirst m) ?_
  obtain ⟨a, b, c, d, hdigits, hunit⟩ := unit?_hexPadded (n := 0xDC00 + k) (by omega)
  rw [Json.unitEscape, hdigits]
  exact .unit hunit (by rwa [hpair])

theorem Spells.writeChar {c : Char} (h : Spells body (c.toNat :: ns) ms) : Spells (Json.writeChar c ++ body) ns ms := by
  have hlt := toNat_lt c
  unfold Json.writeChar
  simp only [Bool.or_eq_true, beq_iff_eq, Bool.and_eq_true, decide_eq_true_eq]
  split
  next hquote => rcases hquote with rfl | rfl <;> exact .escape (by decide) rfl h
  next hplain =>
  -- the control characters that have a letter of their own
  iterate 5
    split
    next hc =>
      subst hc
      exact .escape (by decide) rfl h
  split
  next hc =>
    obtain ⟨hquote, hslash⟩ := not_or.1 hplain
    exact .char hquote hslash hc.1 h
  split
  next hc => exact .unitEscape hc (fun m _ hpair => by simp [isLowHalf_toNat] at hpair) h
  next hc =>
    rw [List.append_assoc]
    exact .pairEscape (by omega) (by omega) h

theorem Spells.writeCode (hn : n < 0x110000) (happart : ∀ m ∈ ns.head?, Apart m n) (h : Spells body (n :: ns) ms) :
    Spells (Json.writeCode n ++ body) ns ms := by
  unfold Json.writeCode
  split
  next hhalf =>
    refine .unitEscape ?_ happart h
    simp only [isHalf, isHighHalf, isLowHalf, Bool.or_eq_true, Bool.and_eq_true, decide_eq_true_eq] at hhalf
    omega
  next hhalf =>
    have hcode := toNat_ofNat_of_not_isHalf hn (Bool.eq_false_iff.2 hhalf)
    exact .writeChar (by rwa [hcode])

/-- What is written of code points is read behind others as long as none makes a pair with the one before it. -/
theorem spells_codes (h : AreCodes ns) (hfirst : ∀ m ∈ ms.head?, ∀ n ∈ ns.head?, Apart m n) :
    Spells (ns.flatMap writeCode) ms (ns.reverse ++ ms) := by
  induction ns generalizing ms with
  | nil => exact .nil
  | cons n ns ih =>
    obtain ⟨hn, hbound⟩ := List.forall_mem_cons.1 h.bound
    obtain ⟨hnext, hchain⟩ := List.isChain_cons.1 h.apart
    have hafter : ∀ m ∈ (n :: ms).head?, ∀ k ∈ ns.head?, Apart m k := by
      intro m hm k hk
      obtain rfl := Option.some.inj hm
      exact hnext k hk
    rw [List.flatMap_cons, List.reverse_cons, List.append_assoc]
    exact .writeCode hn (fun m hm => hfirst m hm n rfl) (ih ⟨hbound, hchain⟩ hafter)

theorem spells_flatMap (h : AreCodes ns) : Spells (ns.flatMap writeCode) [] ns.reverse := by
  simpa using spells_codes h (nofun : ∀ m ∈ ([] : List Nat).head?, ∀ n ∈ ns.head?, Apart m n)

/-- Between quotes the code points are told from the text, and so is where they end. -/
theorem codes_inj (hns : AreCodes ns) (hms : AreCodes ms)
    (h : ns.flatMap writeCode ++ '"' :: r = ms.flatMap writeCode ++ '"' :: r') : ns = ms ∧ r = r' := by
  have hread : quotedText 0 0 [] (ns.flatMap writeCode ++ '"' :: r) = _ := (spells_flatMap hns).quotedText 0 r
  rw [h, (spells_flatMap hms).quotedText 0 r'] at hread
  obtain ⟨hcodes, hrest, -⟩ : ms = ns ∧ r' = r ∧ _ := by simpa using hread
  exact ⟨hcodes.symm, hrest.symm⟩

end Write

section Read

/-- Nothing that breaks a line stands between quotes. -/
theorem Spells.notMem_newline (h : Spells body ns ms) : '\n' ∉ body := by
  induction h with
  | nil => simp
  | @char c s ns ms _ _ hc _ ih =>
    have hne : '\n' ≠ c := by
      rintro rfl
      exact absurd hc (by decide)
    simp [hne, ih]
  | @escape c e s ns ms _ he _ ih =>
    have hne : '\n' ≠ c := by
      rintro rfl
      cases he
    simp [hne, ih]
  | @unit a b c d n s ns ms hu _ ih =>
    have hne : '\n' ∉ [a, b, c, d] := by
      intro hmem
      obtain ⟨v, hv⟩ := hexValue?_of_unit? hu '\n' hmem
      cases hv
    simp only [List.mem_cons, List.not_mem_nil, or_false, not_or] at hne ⊢
    exact ⟨by decide, by decide, hne.1, hne.2.1, hne.2.2.1, hne.2.2.2, ih⟩

theorem areCodes_reverse_cons :
    AreCodes (n :: ns).reverse ↔ n < 0x110000 ∧ (∀ m ∈ ns.head?, Apart m n) ∧ AreCodes ns.reverse := by
  constructor
  · rintro ⟨hbound, hchain⟩
    simp only [List.mem_reverse] at hbound
    obtain ⟨hn, hbound⟩ := List.forall_mem_cons.1 hbound
    obtain ⟨hfirst, hchain⟩ := List.isChain_cons.1 (List.isChain_reverse.1 hchain)
    exact ⟨hn, hfirst, by simpa using hbound, List.isChain_reverse.2 hchain⟩
  · rintro ⟨hn, hfirst, hbound, hchain⟩
    simp only [List.mem_reverse] at hbound
    have hcons := List.isChain_cons.2 ⟨hfirst, List.isChain_reverse.1 hchain⟩
    refine ⟨fun k hk => ?_, List.isChain_reverse.2 hcons⟩
    rcases List.mem_cons.1 (List.mem_reverse.1 hk) with rfl | hk
    · exact hn
    · exact hbound k hk

/-- One more unit makes a pair of the half before it, or stands apart from it. -/
theorem areCodes_pushUnit (hn : n < 0x10000) (h : AreCodes ns.reverse) : AreCodes (pushUnit n ns).reverse := by
  cases ns with
  | nil => exact areCodes_reverse_cons.2 ⟨by omega, nofun, h⟩
  | cons m ns =>
    rw [pushUnit]
    split
    next hpair =>
      obtain ⟨-, -, hns⟩ := areCodes_reverse_cons.1 h
      simp only [isHighHalf, isLowHalf, Bool.and_eq_true, decide_eq_true_eq] at hpair
      refine areCodes_reverse_cons.2 ⟨by omega, fun k _ => ?_, hns⟩
      rintro ⟨-, hlow⟩
      simp only [isLowHalf, Bool.and_eq_true, decide_eq_true_eq] at hlow
      omega
    next happart =>
      refine areCodes_reverse_cons.2 ⟨by omega, fun k hk hboth => ?_, h⟩
      obtain rfl := Option.some.inj hk
      exact happart (Bool.and_eq_true_iff.2 hboth)

theorem areCodes_toNat (c : Char) (h : AreCodes ns.reverse) : AreCodes (c.toNat :: ns).reverse := by
  refine areCodes_reverse_cons.2 ⟨toNat_lt c, fun m _ hpair => ?_, h⟩
  rw [isLowHalf_toNat] at hpair
  cases hpair.2

/-- What is read between quotes are the code points of a text. -/
theorem Spells.areCodes (h : Spells body ns ms) (hns : AreCodes ns.reverse) : AreCodes ms.reverse := by
  induction h with
  | nil => exact hns
  | char _ _ _ _ ih => exact ih (areCodes_toNat _ hns)
  | escape _ _ _ ih => exact ih (areCodes_toNat _ hns)
  | unit hu _ ih => exact ih (areCodes_pushUnit (unit?_lt hu) hns)

end Read

end Solwright.Json
