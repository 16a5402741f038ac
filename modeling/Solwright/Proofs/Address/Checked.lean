import Solwright.Address
import Solwright.Proofs.Text.Hex

/-! The checked spelling of an address. It is one for each number, since the case of the letters in it goes by the
digits alone. -/

namespace Solwright.Address

open Solwright.Text

variable {s t : List Char}

theorem toLower_checkedChar {v : Nat} (hv : v < 16) (h : Char) :
    (checkedChar (Nat.digitChar v) h).toLower = Nat.digitChar v := by
  have hall : ∀ v < 16, (Nat.digitChar v).toUpper.toLower = Nat.digitChar v ∧
      (Nat.digitChar v).toLower = Nat.digitChar v := by decide
  unfold checkedChar
  split
  · exact (hall v hv).1
  · exact (hall v hv).2

/-- The digits of an address. -/
theorem digits_of_isAddress (h : isAddress s = true) :
    (dropHexMark s).length = 40 ∧ ∀ c ∈ dropHexMark s, ∃ v, hexDigit? c = some v := by
  simp only [isAddress, Bool.and_eq_true, beq_iff_eq, List.all_eq_true, Option.isSome_iff_exists] at h
  exact h

/-- An address is a number of twenty bytes. -/
theorem number_lt (h : isAddress s = true) : number s < 256 ^ 20 := by
  obtain ⟨hlength, hdigits⟩ := digits_of_isAddress h
  have hlt := hexAfter_lt hdigits 0
  rw [hlength] at hlt
  exact hlt

theorem plainDigits_eq_of_number (hs : isAddress s = true) (ht : isAddress t = true) (h : number s = number t) :
    plainDigits s = plainDigits t := by
  obtain ⟨hlength, hdigits⟩ := digits_of_isAddress hs
  obtain ⟨hlength', hdigits'⟩ := digits_of_isAddress ht
  exact (toLower_of_hexAfter_eq hdigits hdigits' (hlength.trans hlength'.symm) h).2

theorem map_toLower_zipWith {ds hs : List Char} (hds : ∀ c ∈ ds, ∃ v < 16, c = Nat.digitChar v)
    (hlength : ds.length ≤ hs.length) : (ds.zipWith checkedChar hs).map Char.toLower = ds := by
  induction ds generalizing hs with
  | nil => rfl
  | cons d ds ih =>
    cases hs with
    | nil => cases hlength
    | cons h hs =>
      obtain ⟨v, hv, rfl⟩ := hds d List.mem_cons_self
      rw [List.zipWith_cons_cons, List.map_cons, toLower_checkedChar hv,
        ih (fun c hc => hds c (List.mem_cons_of_mem _ hc)) (Nat.le_of_succ_le_succ hlength)]

/-- The checked spelling has the digits of the address. -/
theorem plainDigits_checked (hs : isAddress s = true) (h : isAddress (checked s) = true) :
    plainDigits (checked s) = plainDigits s := by
  obtain ⟨hlength, hdigits⟩ := digits_of_isAddress hs
  have hplain : ∀ c ∈ plainDigits s, ∃ v < 16, c = Nat.digitChar v := by
    intro c hc
    obtain ⟨d, hd, rfl⟩ := List.mem_map.1 hc
    obtain ⟨v, hv⟩ := hdigits d hd
    obtain ⟨hv16, hlower⟩ := toLower_of_hexDigit? hv
    exact ⟨v, hv16, hlower⟩
  have hlength' := (digits_of_isAddress h).1
  have hplainLength : (plainDigits s).length = 40 := by rw [plainDigits, List.length_map, hlength]
  refine map_toLower_zipWith hplain ?_
  -- it has as many digits as an address, so the hash has enough of them
  have hboth := hlength'
  rw [checked, dropHexMark, List.length_zipWith, hplainLength] at hboth
  omega

theorem checked_congr (h : plainDigits s = plainDigits t) : checked s = checked t := by
  rw [checked, checked, h]

/-- The checked spelling is checked already. -/
theorem checked_checked (hs : isAddress s = true) (h : isAddress (checked s) = true) :
    checked (checked s) = checked s :=
  checked_congr (plainDigits_checked hs h)

/-- Addresses in their checked spelling are the same if they are one number. -/
theorem eq_of_number (hs : isAddress s = true) (ht : isAddress t = true) (hs' : checked s = s) (ht' : checked t = t)
    (h : number s = number t) : s = t :=
  calc s = checked s := hs'.symm
    _ = checked t := checked_congr (plainDigits_eq_of_number hs ht h)
    _ = t := ht'

end Solwright.Address
