import Mathlib.Algebra.Order.Field.Power
import Mathlib.Data.List.TakeWhile
import Mathlib.Data.Rat.Floor
import Mathlib.Tactic.FieldSimp
import Mathlib.Tactic.Ring
import Solwright.Number.Binary64
import Solwright.Number.Integer

/-! The values that numerals and doubles stand for. A numeral is read as its value exactly where it is no longer
than the limit, and a double without its fraction is its value cut off towards zero. -/

namespace Solwright.Number

open Text

/-- What may follow the first digit of a numeral, with the digits in it: each may have one underscore in front. -/
inductive DigitTail : List Char → List Nat → Prop
  | nil : DigitTail [] []
  | digit {c : Char} {d : Nat} {s : List Char} {ds : List Nat} : digitValue? c = some d → DigitTail s ds →
      DigitTail (c :: s) (d :: ds)
  | gap {c : Char} {d : Nat} {s : List Char} {ds : List Nat} : digitValue? c = some d → DigitTail s ds →
      DigitTail ('_' :: c :: s) (d :: ds)

/-- The number that digits spell behind a number. -/
def spelledBehind (n : Nat) (ds : List Nat) : Nat :=
  ds.foldl (fun n d => 10 * n + d) n

/-- An unsigned numeral with its value: digits of any script, no more than the limit. -/
def IsDigits (s : List Char) (n : Nat) : Prop :=
  ∃ c tail d ds, s = c :: tail ∧ digitValue? c = some d ∧ DigitTail tail ds ∧ ds.length < digitLimit ∧
    n = spelledBehind d ds

/-- A numeral with its value: digits behind a sign or none, within white space or none. -/
inductive IsNumeral (s : List Char) : Int → Prop
  | plain {n : Nat} : IsDigits (trimBy isNumeralBlank s) n → IsNumeral s n
  | plus {body : List Char} {n : Nat} : trimBy isNumeralBlank s = '+' :: body → IsDigits body n → IsNumeral s n
  | minus {body : List Char} {n : Nat} : trimBy isNumeralBlank s = '-' :: body → IsDigits body n →
      IsNumeral s (-n)

theorem digitValue?_underscore : digitValue? '_' = none := by decide

theorem ne_underscore {c : Char} {d : Nat} (h : digitValue? c = some d) : c ≠ '_' := by
  rintro rfl
  rw [digitValue?_underscore] at h
  cases h

theorem inNumeral_of_digit {c : Char} {d : Nat} (h : digitValue? c = some d) : inNumeral c = true := by
  simp [inNumeral, h]

theorem digitRun?_eq_some {n m : Nat} {s : List Char} :
    digitRun? n s = some m ↔ ∃ ds, DigitTail s ds ∧ m = spelledBehind n ds := by
  constructor
  · intro h
    fun_induction digitRun? n s with
    | case1 n => exact ⟨[], .nil, (Option.some.inj h).symm⟩
    | case2 n c s ih =>
      obtain ⟨d, hd, hrun⟩ := Option.bind_eq_some_iff.1 h
      obtain ⟨ds, htail, hm⟩ := ih d hrun
      exact ⟨d :: ds, .gap hd htail, hm⟩
    | case3 n c s _ ih =>
      obtain ⟨d, hd, hrun⟩ := Option.bind_eq_some_iff.1 h
      obtain ⟨ds, htail, hm⟩ := ih d hrun
      exact ⟨d :: ds, .digit hd htail, hm⟩
  · rintro ⟨ds, htail, rfl⟩
    induction htail generalizing n with
    | nil => rfl
    | @digit c d s ds hd _ ih =>
      rw [digitRun?]
      · rw [hd]
        exact ih
      · rintro d' s' rfl
        exact fun _ => ne_underscore hd rfl
    | @gap c d s ds hd _ ih =>
      rw [digitRun?, hd]
      exact ih

namespace DigitTail

variable {s : List Char} {ds : List Nat}

theorem inNumeral (h : DigitTail s ds) : ∀ c ∈ s, Number.inNumeral c = true := by
  induction h with
  | nil => exact nofun
  | digit hd _ ih => exact List.forall_mem_cons.2 ⟨inNumeral_of_digit hd, ih⟩
  | gap hd _ ih => exact List.forall_mem_cons.2 ⟨rfl, List.forall_mem_cons.2 ⟨inNumeral_of_digit hd, ih⟩⟩

theorem length_digits (h : DigitTail s ds) : (s.filter (· != '_')).length = ds.length := by
  induction h with
  | nil => rfl
  | digit hd _ ih => simp [ne_underscore hd, ih]
  | gap hd _ ih => simp [ne_underscore hd, ih]

theorem getLast_ne (h : DigitTail s ds) : s.getLast? ≠ some '_' := by
  induction h with
  | nil => exact nofun
  | @digit c d s ds hd htail ih =>
    cases s with
    | nil => simpa using ne_underscore hd
    | cons c' s => simpa [List.getLast?_cons_cons] using ih
  | @gap c d s ds hd htail ih =>
    cases s with
    | nil => simpa using ne_underscore hd
    | cons c' s => simpa [List.getLast?_cons_cons] using ih

theorem pairs (h : DigitTail s ds) : loneUnderscores.pairs s = false := by
  have hdigit : ∀ {c d} {s : List Char}, digitValue? c = some d →
      loneUnderscores.pairs (c :: s) = loneUnderscores.pairs s := fun hd => by
    rw [loneUnderscores.pairs]
    rintro s' rfl
    exact fun _ => ne_underscore hd rfl
  induction h with
  | nil => rfl
  | digit hd _ ih => rw [hdigit hd, ih]
  | @gap c d s ds hd _ ih =>
    rw [loneUnderscores.pairs, hdigit hd, ih]
    rintro s' - heq
    exact ne_underscore hd (List.cons.inj heq).1

end DigitTail

/-- What a numeral's sign is followed by, as it is read. -/
def digitsRead (s : List Char) : Except IntegerFault Nat :=
  let front := s.takeWhile inNumeral
  let count := (front.filter (· != '_')).length
  if loneUnderscores front && digitLimit < count then .error (.tooLong count) else
  match natural? s with
  | some n => .ok n
  | none => .error .notANumeral

theorem readInteger_eq (s : List Char) : readInteger s =
    (digitsRead (takeSign (trimBy isNumeralBlank s)).2).map fun n =>
      if (takeSign (trimBy isNumeralBlank s)).1 then -(n : Int) else n := by
  unfold readInteger digitsRead
  dsimp only
  split
  · rfl
  · cases natural? (takeSign (trimBy isNumeralBlank s)).2 <;> rfl

theorem natural?_eq_some {s : List Char} {n : Nat} : natural? s = some n ↔
    ∃ c tail d ds, s = c :: tail ∧ digitValue? c = some d ∧ DigitTail tail ds ∧ n = spelledBehind d ds := by
  constructor
  · intro h
    cases s with
    | nil => cases h
    | cons c tail =>
      obtain ⟨d, hd, hrun⟩ := Option.bind_eq_some_iff.1 h
      obtain ⟨ds, htail, hn⟩ := digitRun?_eq_some.1 hrun
      exact ⟨c, tail, d, ds, rfl, hd, htail, hn⟩
  · rintro ⟨c, tail, d, ds, rfl, hd, htail, hn⟩
    rw [natural?, hd]
    exact digitRun?_eq_some.2 ⟨ds, htail, hn⟩

/-- The limit is on the digits alone, for everything that has the form of a numeral. -/
theorem digitsRead_eq_ok {s : List Char} {n : Nat} : digitsRead s = .ok n ↔ IsDigits s n := by
  have hlimit : ∀ {c tail d ds}, s = c :: tail → digitValue? c = some d → DigitTail tail ds →
      ((loneUnderscores (s.takeWhile inNumeral) && decide (digitLimit <
        ((s.takeWhile inNumeral).filter (· != '_')).length)) = true ↔ ¬ds.length < digitLimit) := by
    rintro c tail d ds rfl hd htail
    have hwhole : (c :: tail).takeWhile inNumeral = c :: tail :=
      List.takeWhile_eq_self_iff.2 (List.forall_mem_cons.2 ⟨inNumeral_of_digit hd, htail.inNumeral⟩)
    have htail' : DigitTail (c :: tail) (d :: ds) := .digit hd htail
    have hlone : loneUnderscores (c :: tail) = true := by
      simp [loneUnderscores, ne_underscore hd, htail'.getLast_ne, htail'.pairs]
    rw [hwhole, hlone, htail'.length_digits, Bool.true_and, decide_eq_true_iff, List.length_cons]
    omega
  constructor
  · intro h
    unfold digitsRead at h
    dsimp only at h
    split at h
    · cases h
    · rename_i hshort
      cases hnatural : natural? s with
      | none =>
        rw [hnatural] at h
        cases h
      | some m =>
        rw [hnatural] at h
        cases h
        obtain ⟨c, tail, d, ds, hs, hd, htail, hn⟩ := natural?_eq_some.1 hnatural
        exact ⟨c, tail, d, ds, hs, hd, htail, Decidable.not_not.1 fun hlong =>
          hshort ((hlimit hs hd htail).2 hlong), hn⟩
  · rintro ⟨c, tail, d, ds, hs, hd, htail, hshort, hn⟩
    unfold digitsRead
    dsimp only
    rw [if_neg fun hlong => (hlimit hs hd htail).1 hlong hshort,
      natural?_eq_some.2 ⟨c, tail, d, ds, hs, hd, htail, hn⟩]

theorem IsDigits.takeSign {s : List Char} {n : Nat} (h : IsDigits s n) : takeSign s = (false, s) := by
  have hsigns : digitValue? '-' = none ∧ digitValue? '+' = none := by decide
  obtain ⟨c, tail, d, ds, rfl, hd, -⟩ := h
  have hminus : c ≠ '-' := by
    rintro rfl
    exact Option.some_ne_none d (hd.symm.trans hsigns.1)
  have hplus : c ≠ '+' := by
    rintro rfl
    exact Option.some_ne_none d (hd.symm.trans hsigns.2)
  rw [Number.takeSign]
  · rintro s' heq
    exact hminus (List.cons.inj heq).1
  · rintro s' heq
    exact hplus (List.cons.inj heq).1

/-- A text is read as a whole number exactly where it is a numeral, and then as its value. -/
theorem readInteger_eq_ok {s : List Char} {n : Int} : readInteger s = .ok n ↔ IsNumeral s n := by
  have hsigned : ∀ {sign : Bool} {body : List Char},
      ((digitsRead body).map fun m => if sign then -(m : Int) else m) = .ok n ↔
        ∃ m : Nat, IsDigits body m ∧ n = if sign then -(m : Int) else m := by
    intro sign body
    simp only [← digitsRead_eq_ok]
    cases digitsRead body with
    | error f => simp [Except.map]
    | ok m => simp [Except.map, eq_comm]
  rw [readInteger_eq, hsigned]
  constructor
  · rintro ⟨m, hm, rfl⟩
    generalize htrim : trimBy isNumeralBlank s = body at hm ⊢
    unfold takeSign at hm ⊢
    split at hm
    · exact .minus htrim hm
    · exact .plus htrim hm
    · exact .plain (htrim ▸ hm)
  · intro h
    cases h with
    | @plain m hm =>
      rw [hm.takeSign]
      exact ⟨m, hm, rfl⟩
    | @plus body m hs hm =>
      rw [hs]
      exact ⟨m, hm, rfl⟩
    | @minus body m hs hm =>
      rw [hs]
      exact ⟨m, hm, rfl⟩

namespace Binary64

/-- The number that a finite double is. -/
def value? : Binary64 → Option ℚ
  | finite negative m e _ => some ((if negative then -1 else 1) * m * 2 ^ e)
  | _ => none

end Binary64

/-- A number without its fraction. -/
def cut (q : ℚ) : ℤ :=
  if 0 ≤ q then ⌊q⌋ else ⌈q⌉

theorem cut_neg (q : ℚ) : cut (-q) = -cut q := by
  unfold cut
  rcases lt_trichotomy q 0 with h | rfl | h
  · rw [if_pos (by linarith), if_neg (not_le.2 h), Int.floor_neg]
  · simp
  · rw [if_neg (by linarith), if_pos h.le, Int.ceil_neg]

@[simp] theorem cut_intCast (n : ℤ) : cut n = n := by
  simp [cut]

/-- Nothing is cut off exactly from whole numbers. -/
theorem cut_eq_iff {q : ℚ} : (cut q : ℚ) = q ↔ ∃ n : ℤ, q = n :=
  ⟨fun h => ⟨cut q, h.symm⟩, fun ⟨n, h⟩ => by rw [h, cut_intCast]⟩

theorem zpow_eq_div {b : ℚ} (hb : b ≠ 0) (e : Int) : b ^ e = b ^ e.toNat / b ^ (-e).toNat := by
  rw [← zpow_natCast, ← zpow_natCast, ← zpow_sub₀ hb]
  congr 1
  omega

theorem truncate_eq_cut (negative : Bool) (m : Nat) (e : Int) :
    Binary64.truncate negative m e = cut ((if negative then -1 else 1) * m * 2 ^ e) := by
  have hvalue : (m : ℚ) * 2 ^ e = ((m * 2 ^ e.toNat : ℕ) : ℚ) / ((2 ^ (-e).toNat : ℕ) : ℚ) := by
    rw [zpow_eq_div two_ne_zero]
    push_cast
    ring
  have hfloor : cut ((m : ℚ) * 2 ^ e) = ((m * 2 ^ e.toNat / 2 ^ (-e).toNat : ℕ) : ℤ) := by
    rw [cut, if_pos (by positivity), hvalue, Rat.floor_natCast_div_natCast]
    rfl
  unfold Binary64.truncate
  cases negative with
  | false =>
    rw [if_neg (by decide), if_neg (by decide), one_mul, hfloor]
    rfl
  | true =>
    rw [if_pos rfl, if_pos rfl, neg_one_mul, neg_mul, cut_neg, hfloor]
    rfl

end Solwright.Number
