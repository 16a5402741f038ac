import Solwright.Text.Raw

/-! The code points of texts. Those of characters are no halves of pairs, and they give the characters back. -/

namespace Solwright

namespace Text

theorem toNat_valid (c : Char) : c.toNat < 0xD800 ∨ 0xDFFF < c.toNat ∧ c.toNat < 0x110000 := c.valid

theorem toNat_lt (c : Char) : c.toNat < 0x110000 := by
  have hvalid := toNat_valid c
  omega

theorem isHalf_toNat (c : Char) : isHalf c.toNat = false := by
  have hvalid := toNat_valid c
  simp only [isHalf, isHighHalf, isLowHalf, Bool.or_eq_false_iff, Bool.and_eq_false_iff, decide_eq_false_iff_not]
  omega

theorem isLowHalf_toNat (c : Char) : isLowHalf c.toNat = false := (Bool.or_eq_false_iff.1 (isHalf_toNat c)).2

theorem toNat_ofNat_of_not_isHalf {n : Nat} (hn : n < 0x110000) (h : isHalf n = false) :
    (Char.ofNat n).toNat = n := by
  have hvalid : n.isValidChar := by
    simp only [isHalf, isHighHalf, isLowHalf, Bool.or_eq_false_iff, Bool.and_eq_false_iff, decide_eq_false_iff_not]
      at h
    simp only [Nat.isValidChar]
    omega
  rw [Char.ofNat, dif_pos hvalid]
  rfl

theorem shownCode_toNat (c : Char) : shownCode c.toNat = c := by
  rw [shownCode, isHalf_toNat, if_neg Bool.false_ne_true, Char.ofNat_toNat]

end Text

namespace RawText

open Text

theorem shownCodes_codes (s : String) : shownCodes (formed s).codes = s.toList := by
  rw [shownCodes, codes, List.map_map]
  refine (List.map_congr_left fun c _ => ?_).trans (List.map_id _)
  exact shownCode_toNat c

theorem isHalf_of_mem_codes {s : String} {n : Nat} (h : n ∈ (formed s).codes) : isHalf n = false := by
  obtain ⟨c, -, rfl⟩ := List.mem_map.1 h
  exact isHalf_toNat c

theorem any_isHalf_codes (s : String) : (formed s).codes.any isHalf = false :=
  List.any_eq_false.2 fun _ hn => Bool.eq_false_iff.1 (isHalf_of_mem_codes hn)

theorem ofCodes_codes (s : String) : ofCodes (formed s).codes = formed s := by
  rw [ofCodes, any_isHalf_codes, if_neg Bool.false_ne_true, shownCodes_codes, String.ofList_toList]

theorem ofCodes_eq_formed {ns : List Nat} {s : String} (h : ofCodes ns = formed s) :
    ns.any isHalf = false ∧ s.toList = shownCodes ns := by
  unfold ofCodes at h
  split at h
  · cases h
  next hhalf =>
    cases h
    exact ⟨by simpa using hhalf, String.toList_ofList⟩

theorem shown_ofCodes (ns : List Nat) : (ofCodes ns).shown = String.ofList (shownCodes ns) := by
  unfold ofCodes
  split <;> rfl

theorem shownCodes_of_ofCodes {ns ns' : List Nat} (h : ofCodes ns' = ofCodes ns) : shownCodes ns' = shownCodes ns := by
  have hshown := congrArg (fun s => s.shown.toList) h
  simpa only [shown_ofCodes, String.toList_ofList] using hshown

@[simp]
theorem formed_beq_formed (s t : String) : (formed s == formed t) = (s == t) := by
  rw [Bool.eq_iff_iff, beq_iff_eq, beq_iff_eq, formed.injEq]

@[simp]
theorem isFormed_formed (s : String) : (formed s).isFormed = true := rfl

theorem codes_append (s t : RawText) : (s ++ t).codes = s.codes ++ t.codes := by
  cases s with
  | formed s =>
    cases t with
    | formed t =>
      have htexts : (s ++ t).toList.map Char.toNat = s.toList.map Char.toNat ++ t.toList.map Char.toNat := by
        rw [String.toList_append, List.map_append]
      exact htexts
    | illFormed => rfl
  | illFormed ns => rfl

theorem isFormed_append (s t : RawText) : (s ++ t).isFormed = (s.isFormed && t.isFormed) := by
  cases s <;> cases t <;> rfl

theorem isFormed_joined {separator : RawText} (hseparator : separator.isFormed = true) {ss : List RawText}
    (h : ∀ s ∈ ss, s.isFormed = true) : (joined separator ss).isFormed = true := by
  induction ss with
  | nil => rfl
  | cons s ss ih =>
    cases ss with
    | nil => exact h s List.mem_cons_self
    | cons t ss =>
      rw [joined, isFormed_append, isFormed_append, h s List.mem_cons_self, hseparator,
        ih fun u hu => h u (List.mem_cons_of_mem s hu)]
      · rfl
      · nofun

/-- The code points tell a text, together with whether it is well formed. -/
theorem eq_of_codes {s t : RawText} (hformed : s.isFormed = t.isFormed) (hcodes : s.codes = t.codes) : s = t := by
  cases s with
  | formed s =>
    cases t with
    | formed t =>
      have hinj : ∀ a b : Char, a.toNat = b.toNat → a = b := fun _ _ => Char.toNat_inj.1
      rw [String.toList_inj.1 ((List.map_inj_right hinj).1 hcodes)]
    | illFormed => cases hformed
  | illFormed ns =>
    cases t with
    | formed => cases hformed
    | illFormed ms => exact congrArg illFormed hcodes

end RawText

end Solwright
