import Solwright.Proofs.Json.Inherited
import Solwright.Proofs.Json.Limits
import Solwright.Proofs.Number.Digits

/-! The whole numbers among the members of an object that is read have no more digits than are read of a numeral. -/

namespace Solwright.Json

open Solwright.Number Solwright.Text

/-- A value is no whole number of too many digits. -/
def FewDigits (v : Json) : Prop := ∀ n, v = .int n → IsShort n

theorem fewDigits_of_mem_literals : ∀ l ∈ literals, FewDigits l.2 := by
  simp [literals, FewDigits]

theorem fewDigits_of_token {n : NumeralParts} {v : Json} (hdigits : ∀ d ∈ n.whole, d.isDigit = true)
    (h : n.token = .scalar v) : FewDigits v := by
  rintro k rfl
  unfold NumeralParts.token at h
  split at h
  · split at h
    next => cases h
    next hlength =>
      have hshort : IsShort (digitsValue n.whole : Nat) := isShort_ofDigitChars hdigits (by omega)
      cases h
      split
      · exact isShort_neg.2 hshort
      · exact hshort
  · cases h

theorem IsAtom.fewDigits {c : Char} {a : List Char} {v : Json} (h : IsAtom c a v) : FewDigits v := by
  rcases h.scalar with ⟨l, hl, rfl⟩ | ⟨parts, hparts, hv⟩
  · exact fewDigits_of_mem_literals l hl
  · exact fewDigits_of_token (whole_of_numeral hparts).2 hv

theorem fewDigits_ofCodes (ns : List Nat) : FewDigits (ofCodes ns) := by
  intro n
  unfold ofCodes
  split <;> simp

/-- Neither a value nor what is among its members is a whole number of too many digits. -/
def HasFewDigits (v : Json) : Prop := FewDigits v ∧ ∀ m ∈ v.members, FewDigits m.2

theorem hasFewDigits_of_noObject {v : Json} (hv : FewDigits v) (h : NoObject v) : HasFewDigits v := by
  refine ⟨hv, ?_⟩
  cases v with
  | obj ms => exact absurd rfl (h ms)
  | _ => exact nofun

theorem isInherited_hasFewDigits : IsInherited HasFewDigits where
  atom h := hasFewDigits_of_noObject h.fewDigits (noObject_of_isScalar h.isScalar)
  text _ := hasFewDigits_of_noObject (fewDigits_ofCodes _) (noObject_ofCodes _)
  arr _ := hasFewDigits_of_noObject nofun nofun
  obj h := ⟨nofun, fun m hm => (h m hm).2.1⟩

/-- A whole number among the members of an object that is read is short. -/
theorem isShort_of_read {limit : Nat} {s : List Char} {ms : List (RawText × Json)} {key : RawText} {n : Int}
    (h : Json.read limit s = .ok (.obj ms)) (hn : ms.lookup key = some (.int n)) : IsShort n := by
  obtain ⟨-, hmembers⟩ := isInherited_hasFewDigits.read h
  exact hmembers _ (mem_of_lookup hn) n rfl

end Solwright.Json
