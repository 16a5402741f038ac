import Solwright.Proofs.Json.Codes
import Solwright.Proofs.Written.Ending

/-! How the reading of any text ends, well formed or not. Where halves of pairs stand in it, code that is mined
may hold one, and no contract has such code. -/

namespace Solwright.WrittenContract

open Solwright.Text Solwright.Json Solwright.Number

variable {limit : Nat} {text : RawText}

/-- The characters among which the object of a text is searched. -/
def searched : RawText → List Char
  | .formed s => s.toList
  | .illFormed codes => marked codes

/-- How what is found there is read. -/
def reading (limit : Nat) : RawText → List Char → Except Json.Fault Json
  | .formed _ => Json.read limit
  | .illFormed _ => fun t => Json.readCodes limit (unmarked t)

/-- The code that a text gives away. -/
def minedCode : RawText → RawText
  | .formed s => .formed (String.ofList ((Mining.code? s.toList).getD []))
  | .illFormed codes => .ofCodes (unmarked ((Mining.code? (marked codes)).getD []))

/-- What a text is told that gives no contract because of its code. -/
def codeRejection (code : RawText) : Rejection :=
  ⟨recordName, [⟨[.member codeField.name], .notUnicode, code.json⟩]⟩

theorem mineMarked_eq (codes : List Nat) : mineMarked (marked codes) =
    match minedCode (.illFormed codes) with
    | .formed code => if code.isEmpty then .error noCode else .ok (mined (String.ofList (marked codes)) code)
    | .illFormed ns => .error (.rejection (codeRejection (.illFormed ns))) := rfl

theorem mineMarked_ends {codes : List Nat} (h : (minedCode (.illFormed codes)).isFormed = true) :
    (∃ c, mineMarked (marked codes) = .ok c ∧ c.code ≠ "") ∨
      ∃ reason : String, mineMarked (marked codes) = .error (.failure (.notInterpreted reason)) := by
  rw [mineMarked_eq]
  cases hcode : minedCode (.illFormed codes) with
  | formed code =>
    dsimp only
    split
    · exact .inr ⟨_, rfl⟩
    next hne => exact .inl ⟨_, rfl, by simpa [mined] using hne⟩
  | illFormed ns =>
    rw [hcode] at h
    cases h

theorem mineMarked_of_illFormed {codes : List Nat} (h : (minedCode (.illFormed codes)).isFormed = false) :
    mineMarked (marked codes) = .error (.rejection (codeRejection (minedCode (.illFormed codes)))) := by
  rw [mineMarked_eq]
  cases hcode : minedCode (.illFormed codes) with
  | formed code =>
    rw [hcode] at h
    cases h
  | illFormed ns => rfl

theorem ofText_illFormed (codes : List Nat) : ofText limit (.illFormed codes) =
    match firstObject? (reading limit (.illFormed codes)) (candidates (searched (.illFormed codes))) with
    | .error f => .error f
    | .ok (some ms) => ofReplyMembers ms
    | .ok none => mineMarked (marked codes) := rfl

theorem ofText_of_reachesLimit (h : ReachesLimit (reading limit text) (candidates (searched text))) :
    ∃ f, ofText limit text = .error f ∧ f.IsLimit := by
  cases text with
  | formed s =>
    have hreply : ReachesLimit (Json.read limit) (candidates ((some s).getD "").toList) := h
    exact ofReply_of_reachesLimit hreply
  | illFormed codes =>
    obtain ⟨f, hf, hlimit⟩ := firstObject?_of_reachesLimit h
    exact ⟨f, by rw [ofText_illFormed, hf], hlimit⟩

/-- Without a limit, no other text fails otherwise than for want of code, unless its code is ill-formed. -/
theorem ofText_of_not_reachesLimit (h : ¬ReachesLimit (reading limit text) (candidates (searched text)))
    (hcode : (∀ t ∈ candidates (searched text), ¬HoldsCode (reading limit text) t) →
      (minedCode text).isFormed = true) :
    (∃ c, ofText limit text = .ok c ∧ c.code ≠ "") ∨
      ∃ reason : String, ofText limit text = .error (.failure (.notInterpreted reason)) := by
  cases text with
  | formed s =>
    have hreply : ¬ReachesLimit (Json.read limit) (candidates ((some s).getD "").toList) := h
    exact ofReply_of_not_reachesLimit hreply
  | illFormed codes =>
    rcases firstObject?_of_not_reachesLimit h with ⟨ms, hms, -⟩ | ⟨hnone, hall⟩
    · rw [ofText_illFormed, hms]
      exact ofReplyMembers_ends ms
    · rw [ofText_illFormed, hnone]
      exact mineMarked_ends (hcode hall)

theorem ofText_of_illFormed (h : ¬ReachesLimit (reading limit text) (candidates (searched text)))
    (hobject : ∀ t ∈ candidates (searched text), ¬HoldsCode (reading limit text) t)
    (hcode : (minedCode text).isFormed = false) :
    text.isFormed = false ∧ ofText limit text = .error (.rejection (codeRejection (minedCode text))) := by
  cases text with
  | formed s => cases hcode
  | illFormed codes =>
    refine ⟨rfl, ?_⟩
    rcases firstObject?_of_not_reachesLimit h with ⟨ms, -, t, ht, hholds⟩ | ⟨hnone, -⟩
    · exact absurd hholds (hobject t ht)
    · rw [ofText_illFormed, hnone]
      exact mineMarked_of_illFormed hcode

example : (minedCode (.illFormed ("pragma solidity".toList.map Char.toNat ++ [0xD800]))).isFormed = false := by
  decide

/-- A text comes to a limit only if it shows too many digits or too many opening brackets. -/
theorem counts_of_reachesLimit (h : ReachesLimit (reading limit text) (candidates (searched text))) :
    digitLimit < text.shown.toList.countP Char.isDigit ∨ limit < text.shown.toList.countP isOpening := by
  cases text with
  | formed s => exact ReachesLimit.counts h
  | illFormed codes =>
    obtain ⟨t, hmem, f, hread, hf⟩ := h.exists_meets
    have hle : ∀ {p : Char → Bool}, (∀ c, p c = true → 0 < c.toNat ∧ c.toNat < 0x80) →
        (shownMarked t).countP p ≤ (RawText.illFormed codes).shown.toList.countP p := by
      intro p hp
      calc (shownMarked t).countP p ≤ t.countP p := countP_shownMarked_le hp t
        _ ≤ (marked codes).countP p := (sublist_of_mem_candidates hmem).countP_le
        _ ≤ (shownCodes codes).countP p := countP_marked_le hp codes
        _ = (RawText.illFormed codes).shown.toList.countP p := by rw [RawText.shown, String.toList_ofList]
    exact (counts_of_readCodes hread hf).imp (Nat.lt_of_lt_of_le · (hle fun _ => ascii_of_isDigit))
      (Nat.lt_of_lt_of_le · (hle fun _ => ascii_of_isOpening))

/-- A text that begins with a numeral of too many digits comes to a limit. -/
theorem reachesLimit_of_longNumeral {ds t : List Char} (htext : text.shown.toList = ds ++ t)
    (hds : ∀ d ∈ ds, d.isDigit = true) (hzero : ds.head? ≠ some '0') (hlimit : digitLimit < ds.length)
    (ht : Ends t) : ReachesLimit (reading limit text) (candidates (searched text)) := by
  have hne : ds ≠ [] := List.ne_nil_of_length_pos (Nat.zero_lt_of_lt hlimit)
  cases text with
  | formed s =>
    rw [searched, show s.toList = ds ++ t from htext]
    exact reachesLimit_of_digits hne hds ht fun b hb => meetsLimit_of_digits hds hzero hlimit hb
  | illFormed codes =>
    rw [RawText.shown, String.toList_ofList] at htext
    obtain ⟨ns, hmarked, hns⟩ := marked_of_shownCodes (fun d hd => ascii_of_isDigit (hds d hd)) htext
    have hends : Ends (marked ns) := by rwa [Ends, head?_marked, hns]
    rw [searched, hmarked]
    refine reachesLimit_of_digits hne hds hends fun b hb => ⟨.longNumeral ds.length, ?_, rfl⟩
    exact readCodes_digits (shownMarked_append (fun d hd => (ascii_of_isDigit (hds d hd)).2) b) hds hzero hlimit
      hb.shownMarked

theorem reachesLimit_of_brackets {k : Nat} {t : List Char} (htext : text.shown.toList = List.replicate k '[' ++ t)
    (hlimit : limit < k) : ReachesLimit (reading limit text) (candidates (searched text)) := by
  have hk : k ≠ 0 := Nat.ne_zero_of_lt hlimit
  have hascii : ∀ c ∈ List.replicate k '[', 0 < c.toNat ∧ c.toNat < 0x80 := by
    intro c hc
    rw [List.eq_of_mem_replicate hc]
    decide
  cases text with
  | formed s =>
    rw [searched, show s.toList = List.replicate k '[' ++ t from htext]
    exact reachesLimit_of_nested hk t (meetsLimit_of_nested hlimit)
  | illFormed codes =>
    rw [RawText.shown, String.toList_ofList] at htext
    obtain ⟨ns, hmarked, -⟩ := marked_of_shownCodes hascii htext
    rw [searched, hmarked]
    refine reachesLimit_of_nested hk _ fun b => ⟨.nesting false, ?_, rfl⟩
    exact readCodes_brackets (shownMarked_append (fun c hc => (hascii c hc).2) b) hlimit

theorem fault_of_ends {r : Except Solwright.Fault WrittenContract} {f : Solwright.Fault}
    (hends : (∃ c, r = .ok c ∧ c.code ≠ "") ∨
      ∃ reason : String, r = .error (.failure (.notInterpreted reason)))
    (hf : r = .error f) : ∃ reason : String, f = .failure (.notInterpreted reason) := by
  subst hf
  rcases hends with ⟨c, hc, -⟩ | ⟨reason, hreason⟩
  · cases hc
  · exact ⟨reason, Except.error.inj hreason⟩

/-- The reading of a text gives a contract with code or tells why there is none, exactly where no limit is
reached and, if no object with code is found, the code that the text gives away is well formed. Where a limit
is reached, that is the fault, and the text has more digits or more opening brackets than the limit; where the
code is ill-formed, so is the text, and the code is refused by the form of a contract. A text that begins with
a numeral of too many digits, or with too many brackets, does reach a limit. -/
theorem ofText_ends (text : RawText) :
    let s := text.shown.toList
    let read := reading limit text
    let ts := candidates (searched text)
    (((∃ c, ofText limit text = .ok c ∧ c.code ≠ "") ∨
        ∃ reason : String, ofText limit text = .error (.failure (.notInterpreted reason))) ↔
      ¬ReachesLimit read ts ∧ ((∀ t ∈ ts, ¬HoldsCode read t) → (minedCode text).isFormed = true)) ∧
    (ReachesLimit read ts → (∃ f, ofText limit text = .error f ∧ f.IsLimit) ∧
      (digitLimit < s.countP Char.isDigit ∨ limit < s.countP isOpening)) ∧
    (¬ReachesLimit read ts → (∀ t ∈ ts, ¬HoldsCode read t) → (minedCode text).isFormed = false →
      text.isFormed = false ∧ ofText limit text = .error (.rejection (codeRejection (minedCode text)))) ∧
    (∀ ds t, s = ds ++ t → (∀ d ∈ ds, d.isDigit = true) → ds.head? ≠ some '0' → digitLimit < ds.length →
      Ends t → ReachesLimit read ts) ∧
    (∀ k t, s = List.replicate k '[' ++ t → limit < k → ReachesLimit read ts) := by
  intro s read ts
  refine ⟨⟨fun hends => ?_, fun h => ofText_of_not_reachesLimit h.1 h.2⟩,
    fun hlimit => ⟨ofText_of_reachesLimit hlimit, counts_of_reachesLimit hlimit⟩, ofText_of_illFormed, ?_, ?_⟩
  · have hlimit : ¬ReachesLimit read ts := by
      intro hlimit
      obtain ⟨f, hf, hfault⟩ := ofText_of_reachesLimit hlimit
      obtain ⟨reason, rfl⟩ := fault_of_ends hends hf
      exact Fault.not_isLimit_failure _ hfault
    refine ⟨hlimit, fun hobject => ?_⟩
    by_contra hcode
    obtain ⟨-, hf⟩ := ofText_of_illFormed hlimit hobject (by simpa using hcode)
    obtain ⟨reason, hreason⟩ := fault_of_ends hends hf
    cases hreason
  · exact fun ds t hs hds hzero hlimit ht => reachesLimit_of_longNumeral hs hds hzero hlimit ht
  · exact fun k t hs hlimit => reachesLimit_of_brackets hs hlimit

end Solwright.WrittenContract
