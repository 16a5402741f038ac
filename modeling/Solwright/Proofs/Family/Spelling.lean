import Solwright.Family
import Solwright.Proofs.Feature.Spelling
import Solwright.Proofs.Json.Members

/-! The spellings of a family: each of its names, in letters of any case and with white space around it. -/

namespace Solwright

open Solwright.Text

namespace Text

/-- Lower case leaves white space as it is. -/
theorem mem_lower_of_isBlank {w : List Char} {c : Char} (hc : c ∈ w) (hblank : isBlank c = true) :
    c ∈ lower w := by
  have hlower : lowerChar c = [c] := by
    have hupper : c.isUpper = false := by
      rw [Bool.eq_false_iff]
      intro hupper
      have hn := isUpper_iff.1 hupper
      simp [isBlank] at hblank
      omega
    unfold lowerChar
    split
    next h =>
      simp [isBlank] at h hblank
      omega
    split
    next h =>
      simp [isBlank] at h hblank
      omega
    next => rw [toLower_of_not_isUpper hupper]
  exact List.mem_flatMap.2 ⟨c, hc, by rw [hlower]; exact List.mem_singleton_self c⟩

end Text

namespace Family

/-- A spelling of a family. -/
def IsSpelled (f : Family) (s : String) : Prop :=
  ∃ a w b name, s.toList = a ++ w ++ b ∧ IsBlank a ∧ IsBlank b ∧ lower w = name.toList ∧ (name, f) ∈ names

theorem lookup_names {name : String} {f : Family} : names.lookup name = some f ↔ (name, f) ∈ names := by
  have hall : names.all fun p => names.lookup p.1 == some p.2 := by decide
  refine ⟨mem_of_lookup, fun h => ?_⟩
  have hlookup := List.all_eq_true.1 hall _ h
  exact beq_iff_eq.1 hlookup

theorem visible_of_mem_names {name : String} {f : Family} (h : (name, f) ∈ names) :
    ∀ c ∈ name.toList, isBlank c = false := by
  have hall : names.all fun p => p.1.toList.all (!isBlank ·) := by decide
  have hname := List.all_eq_true.1 hall _ h
  simpa using hname

/-- A text names a family exactly if it is a spelling of it. -/
theorem ofText?_eq_some_iff {s : String} {f : Family} : ofText? s = some f ↔ f.IsSpelled s := by
  rw [ofText?, lookup_names]
  constructor
  · intro h
    obtain ⟨a, b, hs, ha, hb⟩ := trim_split s.toList
    exact ⟨a, _, b, _, hs, ha, hb, by rw [String.toList_ofList], h⟩
  · rintro ⟨a, w, b, name, hs, ha, hb, hw, hname⟩
    have hvisible : ∀ c ∈ w, isBlank c = false := by
      intro c hc
      rw [Bool.eq_false_iff]
      intro hblank
      have hmem : c ∈ name.toList := hw ▸ mem_lower_of_isBlank hc hblank
      exact Bool.eq_false_iff.1 (visible_of_mem_names hname c hmem) hblank
    rw [hs, trim_around ha hb hvisible, hw, String.ofList_toList]
    exact hname

end Family

end Solwright
