import Solwright.Proofs.Json.Backtick
import Solwright.Proofs.Json.Members
import Solwright.Proofs.Json.Reworded
import Solwright.Proofs.Text.Raw

/-! Dropping the fences from the text of an object leaves the text of an object. No fence reaches over
the marks and quotes of a text, so only what is between quotes is reworded. -/

namespace Solwright.Json

open Solwright.Text Reader

/-- What dropping fences does to a text: one without a fence stays, and where no escape spells a
backtick one with a fence has fewer backticks afterwards. -/
structure Drops (verbatim : Prop) (ns ns' : List Nat) : Prop where
  keeps : ¬fence <:+: shownCodes ns → ofCodes ns' = ofCodes ns
  loses : verbatim → fence <:+: shownCodes ns →
    (shownCodes ns').count '`' < (shownCodes ns).count '`'

variable {verbatim : Prop}

theorem rawText_of_ofCodes {ns ns' : List Nat} (h : ofCodes ns' = ofCodes ns) :
    RawText.ofCodes ns' = RawText.ofCodes ns := by
  rw [← json_ofCodes, ← json_ofCodes] at h
  exact RawText.json_injective h

theorem fence_infix_reverse {ns : List Nat} :
    fence <:+: shownCodes ns.reverse ↔ fenceCodes <:+: ns := by
  have hsame : fenceCodes.reverse = fenceCodes := by
    rw [fenceCodes_eq]
    rfl
  rw [fence_infix_shownCodes, ← List.reverse_infix, List.reverse_reverse, hsame]

theorem Spells.drops {body : List Char} {ms : List Nat} (h : Spells body [] ms)
    (hb : verbatim → spellsBacktick body = false) :
    ∃ ms', Spells (unfenced body) [] ms' ∧ Drops verbatim ms.reverse ms'.reverse := by
  by_cases hf : fence <:+: body
  · obtain ⟨ms', hs, -, hlt⟩ := h.unfence []
    refine ⟨ms', hs, ⟨fun hno => absurd (fence_infix_reverse.2 (h.codes_of_fence hf)) hno, fun _ _ => ?_⟩⟩
    simpa [count_shownCodes] using hlt hf
  · refine ⟨ms, by rwa [unfenced_of_not_isInfix hf], ⟨fun _ => rfl, fun hv hms => ?_⟩⟩
    have hnil : Tracks [] [] := fun j hj => by
      rw [List.prefix_nil, List.replicate_eq_nil_iff] at hj
      rw [hj]
      exact List.nil_suffix
    rcases h.fence_of_codes (hb hv) hnil (fence_infix_reverse.1 hms) with hnone | hbody
    · exact absurd hnone.length_le (by decide)
    · exact absurd hbody hf

theorem not_isFencing_quote : isFencing '"' = false := by decide

theorem not_isFencing_closeBrace : isFencing '}' = false := by decide

theorem ne_of_isSpace {c : Char} (h : isSpace c = true) : c ≠ '`' ∧ c ≠ '\\' := by
  constructor <;> rintro rfl <;> cases h

theorem ne_of_mark? {c : Char} {t : Token} (h : mark? c = some t) : c ≠ '`' ∧ c ≠ '\\' := by
  constructor <;> rintro rfl <;> cases h

theorem ne_of_isAtomChar {c : Char} (h : isAtomChar c = true) : c ≠ '`' ∧ c ≠ '\\' := by
  constructor <;> rintro rfl <;> cases h

theorem unfenced_cons {c : Char} (hc : c ≠ '`') (s : List Char) :
    unfenced (c :: s) = c :: unfenced s :=
  unfenced_of_none (afterFence?_of_ne hc s)

theorem Ends.unfence {s : List Char} (h : Ends s) : Ends (unfenced s) := by
  cases s with
  | nil => exact h
  | cons c s =>
    have hc : c ≠ '`' := by
      rintro rfl
      cases h '`' rfl
    rw [unfenced_cons hc]
    exact h

/-- Dropping fences rewords the texts between quotes, and nothing else. -/
theorem Lexes.unfence {s r : List Char} {ts : List Token} (h : Lexes s ts r)
    (hb : verbatim → spellsBacktick s = false) :
    ∃ ts', Lexes (unfenced s) ts' (unfenced r) ∧
      List.Forall₂ (Token.Reworded (Drops verbatim)) ts ts' := by
  induction h with
  | done => exact ⟨[], .done, .nil⟩
  | @space c s r ts hc hs ih =>
    obtain ⟨htick, hslash⟩ := ne_of_isSpace hc
    rw [spellsBacktick_cons hslash] at hb
    obtain ⟨ts', hl, hts⟩ := ih hb
    rw [unfenced_cons htick]
    exact ⟨ts', .space hc hl, hts⟩
  | @mark c t s r ts ht hs ih =>
    obtain ⟨htick, hslash⟩ := ne_of_mark? ht
    rw [spellsBacktick_cons hslash] at hb
    obtain ⟨ts', hl, hts⟩ := ih hb
    rw [unfenced_cons htick]
    exact ⟨t :: ts', .mark ht hl, .cons (.mark (isMark_of_mark? ht)) hts⟩
  | @text body s r ns ts hbody hs ih =>
    rw [spellsBacktick_cons (by decide), hbody.spellsBacktick_append, spellsBacktick_cons (by decide)] at hb
    simp only [Bool.or_eq_false_iff] at hb
    obtain ⟨ms', hbody', hdrops⟩ := hbody.drops fun hv => (hb hv).1
    obtain ⟨ts', hl, hts⟩ := ih fun hv => (hb hv).2
    rw [unfenced_cons (by decide), unfenced_append_cons not_isFencing_quote]
    exact ⟨.text ms'.reverse :: ts', .text hbody' hl, .cons (.text hdrops) hts⟩
  | @atom c a s r v ts ha he hs ih =>
    have hchars : '`' ∉ c :: a ∧ '\\' ∉ c :: a :=
      ⟨fun hm => (ne_of_isAtomChar (ha.chars _ hm)).1 rfl,
        fun hm => (ne_of_isAtomChar (ha.chars _ hm)).2 rfl⟩
    rw [← List.cons_append] at hb ⊢
    rw [spellsBacktick_append hchars.2] at hb
    obtain ⟨ts', hl, hts⟩ := ih hb
    rw [unfenced_append hchars.1]
    exact ⟨.scalar v :: ts', .atom ha he.unfence hl, .cons (.scalar ha.isScalar) hts⟩

theorem closeObject_of_reworded {R : List Nat → List Nat → Prop} {us ts : List Token}
    (h : List.Forall₂ (Token.Reworded R) (us ++ [.closeObject]) ts) : ∃ us', ts = us' ++ [.closeObject] := by
  induction us generalizing ts with
  | nil =>
    cases h with
    | cons ht hts =>
      cases ht
      cases hts
      exact ⟨[], rfl⟩
  | cons u us ih =>
    cases h with
    | @cons _ t _ ts ht hts =>
      obtain ⟨us', rfl⟩ := ih hts
      exact ⟨t :: us', rfl⟩

theorem unfenced_braces (mid s : List Char) :
    unfenced ('{' :: (mid ++ '}' :: s)) = '{' :: (unfenced mid ++ '}' :: unfenced s) := by
  rw [unfenced_cons (by decide), unfenced_append_cons not_isFencing_closeBrace]

/-- The text of an object is that of one after its fences are dropped. -/
theorem ObjectText.unfence {o : List Char} {ts : List Token} (ho : ObjectText o ts)
    (hb : verbatim → spellsBacktick o = false) : ∃ ts', ObjectText (unfenced o) ts' ∧
      List.Forall₂ (Token.Reworded (Drops verbatim)) ts ts' := by
  have hl := ho.lexes []
  rw [List.append_nil] at hl
  obtain ⟨ts', hl', hts⟩ := hl.unfence hb
  refine ⟨ts', ?_, hts⟩
  obtain ⟨mid, rfl⟩ := ho.braces
  obtain ⟨us, rfl⟩ := ho.tokens
  obtain ⟨us', rfl⟩ : ∃ us', ts' = .openObject :: us' ++ [.closeObject] := by
    cases hts with
    | cons ht hts =>
      cases ht
      obtain ⟨us', rfl⟩ := closeObject_of_reworded hts
      exact ⟨us', rfl⟩
  rw [unfenced_braces, unfenced_nil] at hl' ⊢
  obtain ⟨sp, o', sp', hs, hsp, hsp', ho'⟩ := objectText_of_lexes hl'
  -- both ends are braces, so there is no white space around the object
  obtain rfl : sp = [] := by
    cases sp with
    | nil => rfl
    | cons c sp =>
      obtain ⟨rfl, -⟩ := List.cons.inj hs
      cases hsp '{' List.mem_cons_self
  obtain rfl : sp' = [] := by
    rcases List.eq_nil_or_concat' sp' with rfl | ⟨l, c, rfl⟩
    · rfl
    · have hlast := congrArg List.getLast? hs
      rw [← List.cons_append, ← List.append_assoc, ← List.append_assoc, List.getLast?_concat,
        List.getLast?_concat, Option.some.injEq] at hlast
      subst hlast
      cases hsp' '}' (by simp)
  rw [List.nil_append, List.append_nil] at hs
  rwa [hs]

/-- Without its fences the text of an object is read as well. Where no name of its members has a fence,
it is read as an object with the same names. -/
theorem ObjectText.reads_unfenced (kept verbatim : Prop) {o : List Char} {ts : List Token}
    {ms : List (RawText × Json)} (ho : ObjectText o ts) (hr : Reads limit .start ts (.obj ms))
    (hb : verbatim → spellsBacktick o = false) (hkeys : kept → ∀ m ∈ ms, ¬fence <:+: m.1.shown.toList) :
    ∃ ts' w, ObjectText (unfenced o) ts' ∧ Reads limit .start ts' w ∧
      (kept → ∃ ns, w = .obj ns ∧ RewordedMembers (Drops verbatim) ms ns) := by
  obtain ⟨ts', ho', hts⟩ := ho.unfence hb
  have hstart : Like kept (Drops verbatim) .start .start := ⟨.nil, .value⟩
  obtain ⟨w, hr', hw⟩ := hstart.reads hr hts fun hk ms' hms ns ns' hns hname => by
    cases hms
    obtain ⟨m, hm, hmname⟩ := List.mem_map.1 hname
    have hno := hkeys hk m hm
    rw [hmname, RawText.shown_ofCodes, String.toList_ofList] at hno
    exact rawText_of_ofCodes (hns.keeps hno)
  exact ⟨ts', w, ho', hr', fun hk => hw hk ms rfl⟩

end Solwright.Json
