import Solwright.Proofs.Abi.Words

/-! Where the parts of assembled data lie. Every head takes one word, and the word of a part with a tail is the
place of that. -/

namespace Solwright.AbiType

/-- A part lies in data, with its head at a place. -/
inductive Lies (data : List UInt8) (place : Nat) : Part → Prop
  | head {bytes rest : List UInt8} : data.drop place = bytes ++ rest → Lies data place ⟨false, bytes⟩
  | tail {w bytes rest : List UInt8} : wordAt? data place = some w → data.drop (natOfBytes w) = bytes ++ rest →
      Lies data place ⟨true, bytes⟩

/-- Heads of one word each. -/
def OneWordHeads (ps : List Part) : Prop := ∀ p ∈ ps, p.headSize = 32

variable {ps : List Part}

theorem OneWordHeads.tail {p : Part} (h : OneWordHeads (p :: ps)) : OneWordHeads ps :=
  fun q hq => h q (List.mem_cons_of_mem p hq)

theorem length_heads (start : Nat) (ps : List Part) : (heads start ps).length = headsSize ps := by
  induction ps generalizing start with
  | nil => rfl
  | cons p ps ih =>
    rw [heads, headsSize, Part.headSize]
    split
    · rw [List.length_append, length_word, ih]
    · rw [List.length_append, ih]

theorem lies_first_head (front bytes rest : List UInt8) : Lies (front ++ (bytes ++ rest)) front.length ⟨false, bytes⟩ :=
  .head (List.drop_left' rfl)

theorem lies_first_tail {start : Nat} {front behind mid : List UInt8} (hlimit : start < wordLimit)
    (hstart : start = front.length + (32 + behind.length) + mid.length) (bytes rest : List UInt8) :
    Lies (front ++ (word start ++ (behind ++ (mid ++ (bytes ++ rest))))) front.length ⟨true, bytes⟩ := by
  refine .tail (wordAt?_of_drop (length_word _) (List.drop_left' rfl)) (?_ : _ = bytes ++ rest)
  have hbefore : front ++ (word start ++ (behind ++ (mid ++ (bytes ++ rest)))) =
      (front ++ (word start ++ (behind ++ mid))) ++ (bytes ++ rest) := by simp
  rw [natOfBytes_word_of_lt hlimit, hbefore]
  refine List.drop_left' ?_
  simp only [List.length_append, length_word]
  omega

/-- The parts lie in what has been written of them before, in front of their heads and of their tails. -/
theorem lies_heads {start : Nat} {front mid : List UInt8} (hwords : OneWordHeads ps)
    (hfit : placesFit start ps = true) (hstart : start = front.length + headsSize ps + mid.length) {i : Nat} {p : Part}
    (hp : ps[i]? = some p) :
    Lies (front ++ (heads start ps ++ (mid ++ tails ps))) (front.length + 32 * i) p := by
  induction ps generalizing start front mid i with
  | nil => cases hp
  | cons q ps ih =>
    obtain ⟨dynamic, bytes⟩ := q
    have hhead := hwords _ List.mem_cons_self
    cases dynamic with
    | false =>
      -- the bytes of the part are its head
      have hsize : bytes.length = 32 := hhead
      have hdata : heads start (⟨false, bytes⟩ :: ps) ++ (mid ++ tails (⟨false, bytes⟩ :: ps)) =
          bytes ++ (heads start ps ++ (mid ++ tails ps)) := by
        simp [heads, tails]
      rw [hdata]
      cases i with
      | zero =>
        cases hp
        exact lies_first_head _ _ _
      | succ i =>
        have hplace : front.length + 32 * (i + 1) = (front ++ bytes).length + 32 * i := by
          rw [List.length_append]
          omega
        rw [hplace, ← List.append_assoc]
        refine ih hwords.tail hfit ?_ hp
        have hstart : start = front.length + (bytes.length + headsSize ps) + mid.length := hstart
        rw [List.length_append]
        omega
    | true =>
      -- the head is the place of the bytes, which come after the tails before them
      have hfit : start < wordLimit ∧ placesFit (start + bytes.length) ps = true := by
        simpa [placesFit] using hfit
      have hdata : heads start (⟨true, bytes⟩ :: ps) ++ (mid ++ tails (⟨true, bytes⟩ :: ps)) =
          word start ++ (heads (start + bytes.length) ps ++ (mid ++ (bytes ++ tails ps))) := by
        simp [heads, tails]
      have hstart : start = front.length + (32 + headsSize ps) + mid.length := hstart
      rw [hdata]
      cases i with
      | zero =>
        cases hp
        exact lies_first_tail hfit.1 (by rwa [length_heads]) bytes (tails ps)
      | succ i =>
        have hplace : front.length + 32 * (i + 1) = (front ++ word start).length + 32 * i := by
          rw [List.length_append, length_word]
          omega
        rw [hplace, ← List.append_assoc mid, ← List.append_assoc front]
        refine ih hwords.tail hfit.2 ?_ hp
        simp only [List.length_append, length_word]
        omega

/-- The parts of assembled data lie in it, with their heads one after the other. -/
theorem lies_assemble (hwords : OneWordHeads ps) (hfit : partsFit ps = true) {i : Nat} {p : Part}
    (hp : ps[i]? = some p) : Lies (assemble ps) (32 * i) p := by
  have hstart : headsSize ps = ([] : List UInt8).length + headsSize ps + ([] : List UInt8).length := by simp
  simpa [assemble] using lies_heads hwords hfit hstart hp

theorem dvd_length_assemble (hparts : ∀ p ∈ ps, 32 ∣ p.bytes.length) : 32 ∣ (assemble ps).length := by
  have hsizes : 32 ∣ headsSize ps ∧ 32 ∣ (tails ps).length := by
    induction ps with
    | nil => exact ⟨⟨0, rfl⟩, ⟨0, rfl⟩⟩
    | cons p ps ih =>
      obtain ⟨hheads, htails⟩ := ih fun q hq => hparts q (List.mem_cons_of_mem p hq)
      have hp := hparts p List.mem_cons_self
      obtain ⟨dynamic, bytes⟩ := p
      cases dynamic with
      | false => exact ⟨Nat.dvd_add hp hheads, by simpa [tails] using htails⟩
      | true =>
        refine ⟨Nat.dvd_add (Nat.dvd_refl 32) hheads, ?_⟩
        have hall : tails (⟨true, bytes⟩ :: ps) = bytes ++ tails ps := by simp [tails]
        rw [hall, List.length_append]
        exact Nat.dvd_add hp htails
  rw [assemble, List.length_append, length_heads]
  exact Nat.dvd_add hsizes.1 hsizes.2

end Solwright.AbiType
