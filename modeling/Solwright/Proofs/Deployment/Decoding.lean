import Mathlib.Data.List.Forall2
import Solwright.Proofs.Abi.Parts
import Solwright.Proofs.Address.Checked
import Solwright.Proofs.Deployment.Integers

/-! Reading encoded arguments back. Each kind of argument is found by its head, a word that is the argument itself
or the place of its bytes, and addresses are found as their twenty bytes. -/

namespace Solwright.Deployment

open AbiType

/-- A kind of arguments. -/
inductive Kind
  | integer (signed : Bool) (bits : Nat) (width : IsWidth bits)
  | address
  | switch
  | text
  | bytes

namespace Kind

/-- The spelling of the type of a kind. -/
def spelling : Kind → String
  | .integer signed bits _ => integerType signed bits
  | .address => "address"
  | .switch => "bool"
  | .text => "string"
  | .bytes => "bytes"

/-- The type of a kind, as it is read. -/
def type : Kind → AbiType
  | .integer signed bits _ => asType signed bits
  | .address => .basic "address" .unsized
  | .switch => .basic "bool" .unsized
  | .text => .basic "string" .unsized
  | .bytes => .basic "bytes" .unsized

/-- An argument is one of a kind. Addresses are in their checked spelling. -/
inductive Fits : Kind → Argument → Prop
  | integer {signed : Bool} {bits : Nat} {width : IsWidth bits} {n : Int} : InRange signed bits n →
      Fits (.integer signed bits width) (.int n)
  | address {s : String} : Address.isAddress s.toList = true → Address.checked s.toList = s.toList →
      Fits .address (.text s)
  | switch (b : Bool) : Fits .switch (.bool b)
  | text (s : String) : Fits .text (.text s)
  | bytes (bs : List UInt8) : Fits .bytes (.bytes bs)

/-- An argument of a kind as it is compared: an address by its twenty bytes. -/
def compared : Kind → Argument → Argument
  | .address, .text s => .bytes (bytesOfNat 20 (Address.number s.toList))
  | _, a => a

/-- The whole number that a word stands for. -/
def integerOf (signed : Bool) (w : List UInt8) : Int :=
  if signed ∧ 2 ^ 255 ≤ natOfBytes w then natOfBytes w - 2 ^ 256 else natOfBytes w

/-- Whether a whole number is within the bounds of a type. -/
def inRange (signed : Bool) (bits : Nat) (n : Int) : Bool :=
  if signed then -2 ^ (bits - 1) ≤ n && n < 2 ^ (bits - 1) else 0 ≤ n && n < 2 ^ bits

/-- The bytes whose place is the word at a place. -/
def bytesAt? (data : List UInt8) (place : Nat) : Option (List UInt8) :=
  (wordAt? data place).bind fun w => countedAt? data (natOfBytes w)

/-- The argument of a kind that has its head at a place of data. -/
def decodeAt? (data : List UInt8) (place : Nat) : Kind → Option Argument
  | .integer signed bits _ =>
    (wordAt? data place).bind fun w =>
      if inRange signed bits (integerOf signed w) then some (.int (integerOf signed w)) else none
  | .address =>
    (wordAt? data place).bind fun w =>
      if w.take 12 = List.replicate 12 0 then some (.bytes (w.drop 12)) else none
  | .switch =>
    (wordAt? data place).bind fun w =>
      match natOfBytes w with
      | 0 => some (.bool false)
      | 1 => some (.bool true)
      | _ => none
  | .text => (bytesAt? data place).bind fun bs => (String.fromUTF8? bs.toByteArray).map .text
  | .bytes => (bytesAt? data place).map .bytes

/-- The arguments of kinds whose heads stand one after the other from a place of data on. -/
def decodeFrom? (data : List UInt8) : Nat → List Kind → Option (List Argument)
  | _, [] => some []
  | place, k :: ks =>
    (k.decodeAt? data place).bind fun a => (decodeFrom? data (place + 32) ks).map (a :: ·)

/-- The arguments of kinds that data holds. -/
def decode? (ks : List Kind) (data : List UInt8) : Option (List Argument) :=
  decodeFrom? data 0 ks

variable {k : Kind} {a : Argument} {signed : Bool} {bits : Nat} {n : Int}

theorem inRange_iff : inRange signed bits n = true ↔ InRange signed bits n := by
  cases signed <;> simp [inRange, InRange]

/-- Every bound is one of a whole word. -/
theorem inRange_word (h : InRange signed bits n) (hwidth : IsWidth bits) : InRange signed 256 n := by
  obtain ⟨-, -, hhigh⟩ := hwidth
  cases signed with
  | true =>
    have hpow : (2 : Int) ^ (bits - 1) ≤ 2 ^ (256 - 1) := pow_le_pow_right₀ (by decide) (by omega)
    simp only [InRange, if_true] at h ⊢
    omega
  | false =>
    have hpow : (2 : Int) ^ bits ≤ 2 ^ 256 := pow_le_pow_right₀ (by decide) hhigh
    simp only [InRange, Bool.false_eq_true, if_false] at h ⊢
    omega

theorem integerOf_word (h : InRange signed 256 n) : integerOf signed (word n) = n := by
  unfold integerOf
  rw [natOfBytes_word]
  cases signed with
  | true =>
    simp only [InRange, if_true, true_and] at h ⊢
    split <;> omega
  | false =>
    simp only [InRange, Bool.false_eq_true, if_false, false_and] at h ⊢
    omega

theorem word_address {s : List Char} (h : Address.isAddress s = true) :
    word (Address.number s) = List.replicate 12 0 ++ bytesOfNat 20 (Address.number s) := by
  have hlt := Address.number_lt h
  have hmod : ((Address.number s : Int) % (Nat.pow 2 256 : Nat)).toNat = Address.number s := by
    have hpow : ((Nat.pow 2 256 : Nat) : Int) = 2 ^ 256 := by simp
    rw [hpow]
    omega
  rw [word, hmod, bytesOfNat_add 12 20, Nat.div_eq_of_lt hlt, bytesOfNat_zero]

theorem isDynamic_type (k : Kind) : k.type.isDynamic = match k with | .text | .bytes => true | _ => false := by
  cases k with
  | integer signed bits width => exact isDynamic_asType
  | _ => decide

theorem fromUTF8?_toUTF8 (s : String) : String.fromUTF8? s.toUTF8.data.toList.toByteArray = some s := by
  have hbytes : s.toUTF8.data.toList.toByteArray = s.toUTF8 := by
    apply ByteArray.ext
    simp
  rw [hbytes, String.fromUTF8?, String.toUTF8_eq_toByteArray, dif_pos s.isValidUTF8]
  rfl

theorem write_type (h : k.Fits a) : k.type.write a = match k, a with
    | .integer _ _ _, .int n => word n
    | .address, .text s => word (Address.number s.toList)
    | .switch, .bool b => word (if b then 1 else 0)
    | .text, .text s => counted s.toUTF8.data.toList
    | .bytes, .bytes bs => counted bs
    | _, _ => [] := by
  cases h with
  | @integer signed bits width n hn => cases signed <;> rfl
  | _ => rfl

/-- An argument is read back where it lies. -/
theorem decodeAt?_of_lies {data : List UInt8} {place : Nat} (h : k.Fits a) (hfit : k.type.fits a = true)
    (hlies : Lies data place ⟨k.type.isDynamic, k.type.write a⟩) : k.decodeAt? data place = some (k.compared a) := by
  rw [write_type h, isDynamic_type] at hlies
  cases h with
  | @integer signed bits width n hn =>
    cases hlies with
    | head hdrop =>
      have hvalue := integerOf_word (inRange_word hn width)
      rw [decodeAt?, wordAt?_of_drop (length_word n) hdrop, Option.bind_some, hvalue, if_pos (inRange_iff.2 hn)]
      rfl
  | @address s hs _ =>
    cases hlies with
    | head hdrop =>
      have htop : (List.replicate 12 (0 : UInt8)).length = 12 := List.length_replicate
      rw [decodeAt?, wordAt?_of_drop (length_word _) hdrop, Option.bind_some, word_address hs, List.take_left' htop,
        if_pos rfl, List.drop_left' htop]
      rfl
  | switch b =>
    cases hlies with
    | head hdrop =>
      rw [decodeAt?, wordAt?_of_drop (length_word _) hdrop, Option.bind_some, natOfBytes_word]
      cases b <;> rfl
  | text s =>
    cases hlies with
    | tail hword hdrop =>
      have hcount : s.toUTF8.data.toList.length < wordLimit := by
        have hsize : s.toUTF8.size < wordLimit := by simpa [type, fits, basicFits] using hfit
        exact hsize
      rw [decodeAt?, bytesAt?, hword, Option.bind_some, countedAt?_of_drop hcount hdrop, Option.bind_some,
        fromUTF8?_toUTF8]
      rfl
  | bytes bs =>
    cases hlies with
    | tail hword hdrop =>
      have hcount : bs.length < wordLimit := by simpa [type, fits, basicFits] using hfit
      rw [decodeAt?, bytesAt?, hword, Option.bind_some, countedAt?_of_drop hcount hdrop]
      rfl

/-- Arguments of a kind are the same if they are as they are compared. -/
theorem eq_of_compared {b : Argument} (ha : k.Fits a) (hb : k.Fits b) (h : k.compared a = k.compared b) : a = b := by
  cases ha with
  | @address s hs hs' =>
    cases hb with
    | @address t ht ht' =>
      have hbytes := congrArg natOfBytes (Argument.bytes.inj h)
      rw [natOfBytes_bytesOfNat, natOfBytes_bytesOfNat, Nat.mod_eq_of_lt (Address.number_lt hs),
        Nat.mod_eq_of_lt (Address.number_lt ht)] at hbytes
      rw [String.toList_inj.1 (Address.eq_of_number hs ht hs' ht' hbytes)]
  | integer _ | switch _ | text _ | bytes _ =>
    cases hb
    exact h

/-- The part of an argument has a head of one word, and fills up words. -/
theorem part_words (h : k.Fits a) : (AbiType.Part.mk k.type.isDynamic (k.type.write a)).headSize = 32 ∧
    32 ∣ (k.type.write a).length := by
  rw [write_type h, isDynamic_type]
  cases h with
  | integer _ | address _ _ | switch _ => exact ⟨length_word _, by rw [length_word]⟩
  | text _ | bytes _ => exact ⟨rfl, dvd_length_counted _⟩

variable {ks : List Kind} {args : List Argument}

theorem parts_words (h : List.Forall₂ Fits ks args) : OneWordHeads (writeAll (ks.map type) args) ∧
    ∀ p ∈ writeAll (ks.map type) args, 32 ∣ p.bytes.length := by
  induction h with
  | nil => exact ⟨nofun, nofun⟩
  | @cons k a ks args ha _ ih =>
    obtain ⟨hhead, hbytes⟩ := part_words ha
    exact ⟨List.forall_mem_cons.2 ⟨hhead, ih.1⟩, List.forall_mem_cons.2 ⟨hbytes, ih.2⟩⟩

theorem decodeFrom?_eq_some {data : List UInt8} {place : Nat} (h : List.Forall₂ Fits ks args)
    (hfit : fitAll (ks.map type) args = true)
    (hlies : ∀ (i : Nat) p, (writeAll (ks.map type) args)[i]? = some p → Lies data (place + 32 * i) p) :
    decodeFrom? data place ks = some (ks.zipWith compared args) := by
  induction h generalizing place with
  | nil => rfl
  | @cons k a ks args ha _ ih =>
    obtain ⟨hfirst, hrest⟩ := Bool.and_eq_true_iff.1 hfit
    have hdecode : k.decodeAt? data place = some (k.compared a) := decodeAt?_of_lies ha hfirst (hlies 0 _ rfl)
    have hothers : ∀ (i : Nat) p, (writeAll (ks.map type) args)[i]? = some p → Lies data (place + 32 + 32 * i) p := by
      intro i p hp
      have hplace : place + 32 * (i + 1) = place + 32 + 32 * i := by omega
      exact hplace ▸ hlies (i + 1) p hp
    rw [decodeFrom?, hdecode, Option.bind_some, ih hrest hothers]
    rfl

/-- What is assembled of arguments holds them. -/
theorem decode?_assemble (h : List.Forall₂ Fits ks args)
    (hfit : (AbiType.tuple (ks.map type)).fits (.list args) = true) :
    decode? ks (assemble (writeAll (ks.map type) args)) = some (ks.zipWith compared args) := by
  rw [AbiType.fits, Bool.and_eq_true] at hfit
  refine decodeFrom?_eq_some h hfit.1 fun i p hp => ?_
  rw [Nat.zero_add]
  exact lies_assemble (parts_words h).1 hfit.2 hp

/-- Arguments of kinds are the same if they are as they are compared. -/
theorem eq_of_zipWith_compared {args' : List Argument} (h : List.Forall₂ Fits ks args)
    (h' : List.Forall₂ Fits ks args') (heq : ks.zipWith compared args = ks.zipWith compared args') : args = args' := by
  induction h generalizing args' with
  | nil =>
    cases h'
    rfl
  | cons ha _ ih =>
    cases h' with
    | cons ha' hrest =>
      obtain ⟨hfirst, hothers⟩ := List.cons.inj heq
      rw [eq_of_compared ha ha' hfirst, ih hrest hothers]

end Kind

end Solwright.Deployment
