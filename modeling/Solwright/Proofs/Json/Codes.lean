import Solwright.Json.Codes
import Solwright.Proofs.Json.Limits
import Solwright.Proofs.Number.Digits
import Solwright.Proofs.Text.Marked

/-! When reading a text that need not be well formed comes to a limit. Half a pair is no digit and no bracket,
and only the texts that are quoted are read otherwise than where it is replaced. -/

namespace Solwright.Json

open Solwright.Number Solwright.Text

variable {limit : Nat} {ns : List Nat}

theorem requotes_restored (ns : List Nat) : Requotes (restored ns) where
  text _ _ := ⟨_, rfl⟩
  other {t} _ h := by
    cases t with
    | text codes => exact absurd rfl (h codes)
    | _ => rfl

theorem ascii_of_isDigit {c : Char} (h : c.isDigit = true) : 0 < c.toNat ∧ c.toNat < 0x80 := by
  have hdigit := toNat_of_isDigit h
  omega

theorem ascii_of_isOpening {c : Char} (h : isOpening c = true) : 0 < c.toNat ∧ c.toNat < 0x80 := by
  simp only [isOpening, Bool.or_eq_true, beq_iff_eq] at h
  rcases h with rfl | rfl <;> decide

theorem Ends.shownMarked {s : List Char} (h : Ends s) : Ends (shownMarked s) := by
  cases s with
  | nil => exact h
  | cons c s =>
    have hc : c ≠ mark := by
      rintro rfl
      exact absurd (h mark rfl) (by decide)
    rw [Text.shownMarked, unmarked_cons hc, shownCodes, List.map_cons, shownCode_toNat]
    exact h

/-- Code points whose reading meets a limit show too many digits or too many opening brackets. -/
theorem counts_of_readCodes {f : Fault} (h : readCodes limit ns = .error f) (hf : f.syntax? = none) :
    digitLimit < (shownCodes ns).countP Char.isDigit ∨ limit < (shownCodes ns).countP isOpening := by
  unfold readCodes at h
  split at h
  · cases h
    cases hf
  · simpa [Reader.depth, Reader.start] using limit_of_run (requotes_restored ns) h hf

theorem readCodes_of_head {c : Char} {s : List Char} (h : shownCodes ns = c :: s) (hc : c.toNat < 0x80) :
    readCodes limit ns = readDecodedCodes limit ns := by
  obtain ⟨n, ns, rfl, rfl, -⟩ := List.map_eq_cons_iff.1 h
  rw [readCodes, if_neg]
  intro hmark
  obtain rfl : n = 0xFEFF := by simpa using hmark
  exact absurd hc (by decide)

theorem readCodes_digits {ds s : List Char} (hns : shownCodes ns = ds ++ s) (hds : ∀ d ∈ ds, d.isDigit = true)
    (hzero : ds.head? ≠ some '0') (hlimit : digitLimit < ds.length) (hs : Ends s) :
    readCodes limit ns = .error (.longNumeral ds.length) := by
  have hrun : Reader.start.run limit ns.length ((tokens (ds ++ s)).map (restored ns)) = _ :=
    run_digits (requotes_restored ns) hds hzero hlimit hs _
  rw [← hns] at hrun
  obtain ⟨d, ds, rfl⟩ := List.exists_cons_of_ne_nil (List.ne_nil_of_length_pos (Nat.zero_lt_of_lt hlimit))
  rw [readCodes_of_head hns (ascii_of_isDigit (hds d List.mem_cons_self)).2]
  exact hrun

theorem readCodes_brackets {k : Nat} {s : List Char} (hns : shownCodes ns = List.replicate k '[' ++ s)
    (hlimit : limit < k) : readCodes limit ns = .error (.nesting false) := by
  have hrun := run_brackets (requotes_restored ns) hlimit s ns.length
  rw [← hns] at hrun
  obtain ⟨k, rfl⟩ : ∃ m, k = m + 1 := ⟨k - 1, by omega⟩
  rw [readCodes_of_head hns (by decide)]
  exact hrun

end Solwright.Json
