import Solwright.Proofs.Json.ObjectText
import Solwright.Proofs.Text.Trim

/-! The text of an object, with and without white space around it. -/

namespace Solwright.Json

open Solwright.Text

variable {limit : Nat} {s : List Char} {ms : List (RawText × Json)}

theorem isBlank_of_isSpace {c : Char} (h : isSpace c = true) : isBlank c = true := by
  simp only [isSpace, Bool.or_eq_true, beq_iff_eq] at h
  rcases h with ((rfl | rfl) | rfl) | rfl <;> decide

theorem not_isSpace_of_not_isBlank {c : Char} (h : isBlank c = false) : isSpace c = false := by
  rw [Bool.eq_false_iff] at h ⊢
  exact fun hspace => h (isBlank_of_isSpace hspace)

theorem isBlank_of_isSpaces (h : ∀ c ∈ s, isSpace c = true) : IsBlank s :=
  fun c hc => isBlank_of_isSpace (h c hc)

/-- An object is read from its text alone as from its text with white space around it. -/
theorem read_trim (h : Json.read limit s = .ok (.obj ms)) : Json.read limit (trim s) = .ok (.obj ms) := by
  obtain ⟨sp, o, sp', ts, rfl, hsp, hsp', ho, hr⟩ := objectText_of_read h
  obtain ⟨mid, rfl⟩ := ho.braces
  have htrim : trim (sp ++ ('{' :: (mid ++ ['}']) ++ sp')) = '{' :: (mid ++ ['}']) := by
    have hsplit : sp ++ ('{' :: (mid ++ ['}']) ++ sp') = sp ++ '{' :: (mid ++ '}' :: sp') := by simp
    rw [hsplit]
    exact trim_append (isBlank_of_isSpaces hsp) (isBlank_of_isSpaces hsp') (by decide) (by decide)
  rw [htrim]
  exact ho.read hr

end Solwright.Json
