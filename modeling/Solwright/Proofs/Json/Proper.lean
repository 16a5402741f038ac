import Solwright.Proofs.Json.Inherited
import Solwright.Proofs.Json.Quoting

/-! The values that a JSON text can stand for. They are all that is ever read, whatever stands inside what. -/

namespace Solwright.Json

open Text

/-- A value that a JSON text can stand for. -/
inductive IsProper : Json → Prop
  | scalar {v : Json} : isScalar v = true → IsProper v
  | text {ns : List Nat} : AreCodes ns → IsProper (.ofCodes ns)
  | arr {vs : List Json} : (∀ v ∈ vs, IsProper v) → IsProper (.arr vs)
  | obj {ms : List (RawText × Json)} : (∀ m ∈ ms, IsProper m.1.json) → (∀ m ∈ ms, IsProper m.2) → IsProper (.obj ms)

theorem areCodes_codes (s : String) : AreCodes (RawText.formed s).codes := by
  constructor
  · intro n hn
    obtain ⟨c, -, rfl⟩ := List.mem_map.1 hn
    exact toNat_lt c
  · refine (List.pairwise_of_forall_mem_list fun m hm n _ hpair => ?_).isChain
    have hhigh := (Bool.or_eq_false_iff.1 (RawText.isHalf_of_mem_codes hm)).1
    rw [hhigh] at hpair
    cases hpair.1

theorem ofCodes_codes (s : String) : ofCodes (RawText.formed s).codes = .str s := by
  rw [← json_ofCodes, RawText.ofCodes_codes]
  rfl

theorem isProper_str (s : String) : IsProper (.str s) :=
  ofCodes_codes s ▸ .text (areCodes_codes s)

/-- Whatever is read is proper. -/
theorem isProper_of_read {limit : Nat} {s : List Char} {v : Json} (h : Json.read limit s = .ok v) : IsProper v := by
  have hproper : IsInherited IsProper :=
    ⟨fun ha => .scalar ha.isScalar, fun hb => .text (hb.areCodes ⟨nofun, .nil⟩), .arr,
      fun h => .obj (fun m hm => (h m hm).1) fun m hm => (h m hm).2⟩
  exact hproper.read h

end Solwright.Json
