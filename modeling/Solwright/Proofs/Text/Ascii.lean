/-! The letters of ASCII, and the characters of a text of ASCII, read off its bytes. A kernel evaluates
them much faster than `String.toList`, so facts about the fixed texts of the library are checked on
them. -/

namespace Solwright.Text

theorem isUpper_iff {c : Char} : c.isUpper = true ↔ 65 ≤ c.toNat ∧ c.toNat ≤ 90 := by
  unfold Char.isUpper
  simp only [decide_eq_true_eq, ge_iff_le, UInt32.le_iff_toNat_le]
  exact Iff.rfl

theorem isLower_iff {c : Char} : c.isLower = true ↔ 97 ≤ c.toNat ∧ c.toNat ≤ 122 := by
  unfold Char.isLower
  simp only [Bool.and_eq_true, decide_eq_true_eq, ge_iff_le, UInt32.le_iff_toNat_le]
  exact Iff.rfl

theorem isAlpha_iff {c : Char} : c.isAlpha = true ↔ c.isUpper = true ∨ c.isLower = true := by
  unfold Char.isAlpha
  exact Bool.or_eq_true _ _ ▸ Iff.rfl

theorem isUpper_toUpper {c : Char} (h : c.isAlpha = true) : c.toUpper.isUpper = true := by
  unfold Char.toUpper
  split
  next hl =>
    have h1 : 97 ≤ c.val.toNat := UInt32.le_iff_toNat_le.1 hl.1
    have h2 : c.val.toNat ≤ 122 := UInt32.le_iff_toNat_le.1 hl.2
    have hv : (c.val + ('A'.val - 'a'.val)).toNat = c.val.toNat - 32 := by
      rw [UInt32.toNat_add]
      change (c.val.toNat + 4294967264) % 4294967296 = _
      omega
    rw [isUpper_iff]
    change 65 ≤ (c.val + ('A'.val - 'a'.val)).toNat ∧ (c.val + ('A'.val - 'a'.val)).toNat ≤ 90
    omega
  next hl =>
    refine (isAlpha_iff.1 h).resolve_right fun hlower => hl ?_
    obtain ⟨h1, h2⟩ := isLower_iff.1 hlower
    exact ⟨UInt32.le_iff_toNat_le.2 h1, UInt32.le_iff_toNat_le.2 h2⟩
/-- The bytes of a text. -/
def bytes (s : String) : List UInt8 :=
  s.toByteArray.data.toList

/-- The characters that bytes of ASCII stand for. -/
def asciiChars (bs : List UInt8) : List Char :=
  bs.map fun b => Char.ofNat b.toNat

theorem utf8EncodeChar_ascii {b : UInt8} (h : b.toNat < 128) :
    String.utf8EncodeChar (Char.ofNat b.toNat) = [b] := by
  have hv : (Char.ofNat b.toNat).val.toNat = b.toNat := by
    rw [Char.ofNat, dif_pos (Or.inl (by omega))]
    rfl
  have hsize : (Char.ofNat b.toNat).utf8Size = 1 := by
    have hle : (Char.ofNat b.toNat).val ≤ 127 := by
      rw [UInt32.le_iff_toNat_le, hv]
      exact Nat.lt_succ_iff.1 h
    simp [Char.utf8Size, hle]
  rw [String.utf8EncodeChar_eq_singleton hsize]
  congr 1
  apply UInt8.toNat_inj.1
  rw [UInt32.toNat_toUInt8, hv]
  omega

theorem utf8Encode_asciiChars {bs : List UInt8} (h : ∀ b ∈ bs, b.toNat < 128) :
    (asciiChars bs).utf8Encode = bs.toByteArray := by
  unfold List.utf8Encode asciiChars
  congr 1
  induction bs with
  | nil => rfl
  | cons b bs ih =>
    rw [List.map_cons, List.flatMap_cons, utf8EncodeChar_ascii (h b List.mem_cons_self),
      ih fun b' hb => h b' (List.mem_cons_of_mem b hb)]
    rfl

theorem toList_eq_asciiChars {s : String} (h : ∀ b ∈ bytes s, b.toNat < 128) :
    s.toList = asciiChars (bytes s) := by
  have hs : String.ofList (asciiChars (bytes s)) = s := by
    apply String.toByteArray_inj.1
    rw [String.toByteArray_ofList, utf8Encode_asciiChars h]
    apply ByteArray.ext
    simp [bytes]
  rw [← String.toList_ofList (l := asciiChars (bytes s)), hs]

/-- A text of ASCII whose characters pass a check. -/
def passes (p : List Char → Bool) (s : String) : Bool :=
  (bytes s).all (·.toNat < 128) && p (asciiChars (bytes s))

theorem toList_of_passes {p : List Char → Bool} {s : String} (h : passes p s = true) :
    s.toList = asciiChars (bytes s) := by
  simp only [passes, Bool.and_eq_true, List.all_eq_true, decide_eq_true_eq] at h
  exact toList_eq_asciiChars h.1

theorem of_passes {p : List Char → Bool} {s : String} (h : passes p s = true) : p s.toList = true := by
  rw [toList_of_passes h]
  simp only [passes, Bool.and_eq_true] at h
  exact h.2

end Solwright.Text
