import Mathlib.Algebra.Ring.Int.Defs
import Mathlib.Algebra.Ring.Nat
import Solwright.Abi.Encoding

/-! Words read back. A number below the limit is found where its word stands, and bytes are found behind their
count. -/

namespace Solwright.AbiType

/-- The number that bytes stand for, the highest first. -/
def natOfBytes (bs : List UInt8) : Nat :=
  bs.foldl (fun n b => 256 * n + b.toNat) 0

/-- The word at a place of data. -/
def wordAt? (data : List UInt8) (place : Nat) : Option (List UInt8) :=
  let w := (data.drop place).take 32
  if w.length = 32 then some w else none

/-- How many bytes fill up a count of them to whole words. -/
def gap (count : Nat) : Nat :=
  (32 - count % 32) % 32

/-- The bytes behind their count at a place of data, filled up with zeros. -/
def countedAt? (data : List UInt8) (place : Nat) : Option (List UInt8) :=
  (wordAt? data place).bind fun w =>
    let count := natOfBytes w
    let bs := (data.drop (place + 32)).take count
    if bs.length = count ∧ (data.drop (place + 32 + count)).take (gap count) = List.replicate (gap count) 0
    then some bs else none

theorem length_bytesOfNat (k n : Nat) : (bytesOfNat k n).length = k := by
  induction k with
  | zero => rfl
  | succ k ih => rw [bytesOfNat, List.length_cons, ih]

theorem foldl_bytesOfNat (k n m : Nat) :
    (bytesOfNat k n).foldl (fun n b => 256 * n + b.toNat) m = 256 ^ k * m + n % 256 ^ k := by
  induction k generalizing m with
  | zero => simp [bytesOfNat, Nat.mod_one]
  | succ k ih =>
    have hbyte : (n / Nat.pow 256 k % 256).toUInt8.toNat = n / 256 ^ k % 256 :=
      UInt8.toNat_ofNat_of_lt' (Nat.mod_lt _ (by decide))
    have hsplit : n % 256 ^ (k + 1) = 256 ^ k * (n / 256 ^ k % 256) + n % 256 ^ k := by
      rw [Nat.pow_succ, Nat.mod_mul]
      omega
    rw [bytesOfNat, List.foldl_cons, ih, hbyte, hsplit, Nat.mul_add, Nat.pow_succ]
    simp only [Nat.mul_assoc]
    omega

theorem natOfBytes_bytesOfNat (k n : Nat) : natOfBytes (bytesOfNat k n) = n % 256 ^ k := by
  rw [natOfBytes, foldl_bytesOfNat]
  omega

/-- The bytes of a number in front of its last ones. -/
theorem bytesOfNat_add (j k n : Nat) : bytesOfNat (j + k) n = bytesOfNat j (n / 256 ^ k) ++ bytesOfNat k n := by
  induction j with
  | zero => simp [bytesOfNat]
  | succ j ih =>
    have hbyte : n / Nat.pow 256 (j + k) % 256 = n / 256 ^ k / Nat.pow 256 j % 256 := by
      rw [Nat.div_div_eq_div_mul, Nat.add_comm, Nat.pow_eq, Nat.pow_eq, Nat.pow_add]
    rw [Nat.succ_add, bytesOfNat, bytesOfNat, ih, hbyte]
    rfl

theorem bytesOfNat_zero (k : Nat) : bytesOfNat k 0 = List.replicate k 0 := by
  induction k with
  | zero => rfl
  | succ k ih =>
    rw [bytesOfNat, ih, Nat.zero_div]
    rfl

theorem length_word (n : Int) : (word n).length = 32 := length_bytesOfNat 32 _

theorem natOfBytes_word (n : Int) : natOfBytes (word n) = (n % 2 ^ 256).toNat := by
  have hlimit : 256 ^ 32 = 2 ^ 256 := by decide
  have hpow : ((Nat.pow 2 256 : Nat) : Int) = 2 ^ 256 := by simp
  rw [word, natOfBytes_bytesOfNat, hlimit, hpow]
  exact Nat.mod_eq_of_lt (by omega)

theorem natOfBytes_word_of_lt {n : Nat} (h : n < wordLimit) : natOfBytes (word n) = n := by
  rw [natOfBytes_word]
  change n < 2 ^ 256 at h
  omega

theorem length_padded (bs : List UInt8) : (padded bs).length = bs.length + gap bs.length := by
  simp [padded, gap]

theorem dvd_length_counted (bs : List UInt8) : 32 ∣ (counted bs).length := by
  rw [counted, List.length_append, length_word, length_padded, gap]
  omega

variable {data rest : List UInt8} {place : Nat}

theorem wordAt?_of_drop {w : List UInt8} (hw : w.length = 32) (h : data.drop place = w ++ rest) :
    wordAt? data place = some w := by
  have htake : (data.drop place).take 32 = w := by rw [h, List.take_left' hw]
  rw [wordAt?, htake]
  exact if_pos hw

/-- Counted bytes are found where they stand. -/
theorem countedAt?_of_drop {bs : List UInt8} (hbs : bs.length < wordLimit) (h : data.drop place = counted bs ++ rest) :
    countedAt? data place = some bs := by
  rw [counted, List.append_assoc] at h
  have hbody : data.drop (place + 32) = bs ++ (List.replicate (gap bs.length) 0 ++ rest) := by
    rw [← List.drop_drop, h, List.drop_left' (length_word _), padded, List.append_assoc]
    rfl
  have hgap : (data.drop (place + 32 + bs.length)).take (gap bs.length) = List.replicate (gap bs.length) 0 := by
    rw [← List.drop_drop, hbody, List.drop_left' rfl, List.take_left' List.length_replicate]
  rw [countedAt?, wordAt?_of_drop (length_word _) h, Option.bind_some, natOfBytes_word_of_lt hbs]
  dsimp only
  rw [hbody, List.take_left' rfl, if_pos ⟨rfl, hgap⟩]

end Solwright.AbiType
