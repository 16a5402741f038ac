import Solwright.Composition
import Solwright.Proofs.Text.Ascii
import Solwright.Proofs.Text.Join

/-! Replacing the markers of a base contract one after another gives what filling all its slots at
once gives, as long as no text between the slots and no text that is filled in has a doubled brace:
a marker is then found where a slot is, and nowhere else. -/

namespace Solwright

theorem Slot.mem_all (slot : Slot) : slot ∈ all := by cases slot <;> decide

/-- What is checked of all slots holds of each. -/
theorem Slot.of_all {p : Slot → Bool} (h : all.all p = true) (slot : Slot) : p slot = true :=
  List.all_eq_true.1 h slot slot.mem_all

namespace Composition

open Solwright.Text

/-- A text without a doubled opening brace that also cannot begin one, whatever follows it. -/
def isPlain : List Char → Bool
  | [] => true
  | [c] => c != '{'
  | c :: d :: s => !(c == '{' && d == '{') && isPlain (d :: s)

theorem isPlain_append {a b : List Char} (ha : isPlain a = true) (hb : isPlain b = true) :
    isPlain (a ++ b) = true := by
  induction a with
  | nil => exact hb
  | cons c a ih =>
    cases a with
    | nil =>
      have hc : c ≠ '{' := by simpa [isPlain] using ha
      cases b <;> simp_all [isPlain]
    | cons d a =>
      simp only [isPlain, Bool.and_eq_true] at ha
      have h := ih ha.2
      simp only [List.cons_append, isPlain, Bool.and_eq_true] at h ⊢
      exact ⟨ha.1, h⟩

theorem isPlain_tail {c : Char} {a : List Char} (h : isPlain (c :: a) = true) : isPlain a = true := by
  cases a with
  | nil => rfl
  | cons d a =>
    simp only [isPlain, Bool.and_eq_true] at h
    exact h.2

/-- No marker begins in a plain text. -/
theorem not_isPrefixOf_plain {c : Char} {a rest w : List Char} (h : isPlain (c :: a) = true) :
    ('{' :: '{' :: w).isPrefixOf (c :: a ++ rest) = false := by
  cases a with
  | nil =>
    have hc : c ≠ '{' := by simpa [isPlain] using h
    simp [List.isPrefixOf, hc.symm]
  | cons d a =>
    simp only [isPlain, Bool.and_eq_true, Bool.not_eq_true', Bool.and_eq_false_iff, beq_eq_false_iff_ne] at h
    rcases h.1 with hc | hd
    · simp [List.isPrefixOf, hc.symm]
    · simp [List.isPrefixOf, hd.symm]

theorem replaceFrom_plain {w new a rest : List Char} (h : isPlain a = true) :
    replaceFrom ('{' :: '{' :: w) new 0 (a ++ rest) = a ++ replaceFrom ('{' :: '{' :: w) new 0 rest := by
  induction a with
  | nil => rfl
  | cons c a ih =>
    rw [List.cons_append, replaceFrom, ← List.cons_append, not_isPrefixOf_plain h, ih (isPlain_tail h)]
    simp

theorem replaceFrom_drop {w new a rest : List Char} :
    replaceFrom w new a.length (a ++ rest) = replaceFrom w new 0 rest := by
  induction a with
  | nil => rfl
  | cons c a ih => simpa [replaceFrom] using ih

/-- A marker is replaced where it stands, and what comes in its place is not looked through. -/
theorem replaceFrom_self {c : Char} {w new rest : List Char} :
    replaceFrom (c :: w) new 0 (c :: w ++ rest) = new ++ replaceFrom (c :: w) new 0 rest := by
  have h : (c :: w).isPrefixOf (c :: (w ++ rest)) = true :=
    List.isPrefixOf_iff_prefix.2 (List.prefix_append (c :: w) rest)
  rw [List.cons_append, replaceFrom, if_pos h]
  exact congrArg _ replaceFrom_drop

theorem marker_chars (slot : Slot) : slot.marker.toList = asciiChars (bytes slot.marker) := by
  have h : Slot.all.all fun slot => (bytes slot.marker).all (·.toNat < 128) := by decide
  refine toList_eq_asciiChars fun b hb => ?_
  simpa using List.all_eq_true.1 (Slot.of_all h slot) b hb

/-- After its first brace, no marker begins another. -/
theorem isPlain_marker_tail (slot : Slot) : ∃ w, slot.marker.toList = '{' :: '{' :: w ∧
    isPlain ('{' :: w) = true := by
  have h : Slot.all.all fun slot => passes (fun l => l.take 2 == ['{', '{'] && isPlain l.tail) slot.marker := by
    decide
  have hs := of_passes (Slot.of_all h slot)
  simp only [Bool.and_eq_true, beq_iff_eq] at hs
  generalize slot.marker.toList = l at hs
  rcases l with _ | ⟨c, _ | ⟨d, w⟩⟩
  · simp at hs
  · simp at hs
  · simp only [List.take, List.cons.injEq, and_true, List.tail_cons] at hs
    obtain ⟨⟨rfl, rfl⟩, hplain⟩ := hs
    exact ⟨w, rfl, hplain⟩

/-- Two words differ at a place that both have. -/
def differ : List Char → List Char → Bool
  | c :: a, d :: b => c != d || differ a b
  | _, _ => false

theorem not_isPrefixOf_of_differ {a b : List Char} (h : differ a b = true) (rest : List Char) :
    a.isPrefixOf (b ++ rest) = false := by
  induction a generalizing b with
  | nil => simp [differ] at h
  | cons c a ih =>
    cases b with
    | nil => simp [differ] at h
    | cons d b =>
      simp only [differ, Bool.or_eq_true, bne_iff_ne] at h
      rcases h with h | h
      · simp [List.isPrefixOf, h]
      · simp [List.isPrefixOf, ih h]

theorem differ_markers {k slot : Slot} (h : k ≠ slot) :
    differ k.marker.toList slot.marker.toList = true := by
  have hall : Slot.all.all fun k => Slot.all.all fun slot =>
      k == slot || differ (asciiChars (bytes k.marker)) (asciiChars (bytes slot.marker)) := by
    decide
  have hs := Slot.of_all (Slot.of_all hall k) slot
  rw [marker_chars, marker_chars]
  simpa [h] using hs

/-- A marker is passed over when another is replaced. -/
theorem replaceFrom_other {k slot : Slot} (h : k ≠ slot) (new rest : List Char) :
    replaceFrom k.marker.toList new 0 (slot.marker.toList ++ rest) =
      slot.marker.toList ++ replaceFrom k.marker.toList new 0 rest := by
  have hnot := not_isPrefixOf_of_differ (differ_markers h) rest
  obtain ⟨w, hw, -⟩ := isPlain_marker_tail k
  obtain ⟨v, hv, hplain⟩ := isPlain_marker_tail slot
  rw [hv] at hnot ⊢
  rw [List.cons_append, replaceFrom, ← List.cons_append, hnot, hw, replaceFrom_plain hplain]
  simp

/-- The text of parts, with some text in each slot. -/
def expand (g : Slot → List Char) : List (String ⊕ Slot) → List Char
  | [] => []
  | .inl s :: parts => s.toList ++ expand g parts
  | .inr slot :: parts => g slot ++ expand g parts

theorem expand_append (g : Slot → List Char) (parts parts' : List (String ⊕ Slot)) :
    expand g (parts ++ parts') = expand g parts ++ expand g parts' := by
  induction parts with
  | nil => rfl
  | cons part parts ih =>
    cases part <;> rw [List.cons_append, expand, expand, ih, List.append_assoc]

/-- What fills a slot is in the text of the parts. -/
theorem infix_expand {g : Slot → List Char} {parts : List (String ⊕ Slot)} {slot : Slot}
    (h : .inr slot ∈ parts) : g slot <:+: expand g parts := by
  obtain ⟨a, b, rfl⟩ := List.append_of_mem h
  rw [expand_append, expand]
  exact ⟨expand g a, expand g b, List.append_assoc _ _ _⟩

/-- What putting texts together keeps holds of the text of parts. -/
theorem expand_induction {P : List Char → Prop} (hnil : P []) (happend : ∀ {a b}, P a → P b → P (a ++ b))
    {g : Slot → List Char} {parts : List (String ⊕ Slot)} (hparts : ∀ s, .inl s ∈ parts → P s.toList)
    (hg : ∀ slot, .inr slot ∈ parts → P (g slot)) : P (expand g parts) := by
  induction parts with
  | nil => exact hnil
  | cons part parts ih =>
    have ih := ih (fun s hs => hparts s (List.mem_cons_of_mem part hs))
      fun slot hslot => hg slot (List.mem_cons_of_mem part hslot)
    cases part with
    | inl s => exact happend (hparts s List.mem_cons_self) ih
    | inr slot => exact happend (hg slot List.mem_cons_self) ih

theorem fill_toList (parts : List (String ⊕ Slot)) (f : Slot → String) :
    (Template.fill parts f).toList = expand (fun slot => (f slot).toList) parts := by
  rw [Template.fill, joined_nil_toList, List.flatMap_map]
  induction parts with
  | nil => rfl
  | cons part parts ih => cases part <;> simp [expand, ih]

/-- Replacing the marker of a slot in the text of parts. -/
theorem replaceAll_expand {g : Slot → List Char} {parts : List (String ⊕ Slot)} {k : Slot}
    (new : List Char) (hk : g k = k.marker.toList)
    (hparts : ∀ s, .inl s ∈ parts → isPlain s.toList = true)
    (hg : ∀ slot, slot ≠ k → g slot = slot.marker.toList ∨ isPlain (g slot) = true) :
    replaceAll k.marker.toList new (expand g parts) =
      expand (fun slot => if slot = k then new else g slot) parts := by
  obtain ⟨w, hw, -⟩ := isPlain_marker_tail k
  unfold replaceAll
  induction parts with
  | nil => rfl
  | cons part parts ih =>
    have ih := ih fun s hs => hparts s (List.mem_cons_of_mem part hs)
    cases part with
    | inl s =>
      rw [hw] at ih ⊢
      rw [expand, replaceFrom_plain (hparts s List.mem_cons_self), ih, expand]
    | inr slot =>
      rw [expand, expand, ← ih]
      by_cases hslot : slot = k
      · subst hslot
        rw [if_pos rfl, hk, hw]
        exact replaceFrom_self
      · rw [if_neg hslot]
        rcases hg slot hslot with h | h
        · rw [h]
          exact replaceFrom_other (Ne.symm hslot) new _
        · rw [hw]
          exact replaceFrom_plain h

/-- Replacing the markers of some slots, one after another. -/
theorem foldl_replaceMarker {f : Slot → String} {parts : List (String ⊕ Slot)}
    (hparts : ∀ s, .inl s ∈ parts → isPlain s.toList = true)
    (hf : ∀ slot, isPlain (f slot).toList = true) (slots : List Slot) (hnodup : slots.Nodup)
    {g : Slot → List Char} (hslots : ∀ slot ∈ slots, g slot = slot.marker.toList)
    (hg : ∀ slot, g slot = slot.marker.toList ∨ isPlain (g slot) = true) :
    slots.foldl (replaceMarker f) (expand g parts) =
      expand (fun slot => if slot ∈ slots then (f slot).toList else g slot) parts := by
  induction slots generalizing g with
  | nil => simp
  | cons k slots ih =>
    obtain ⟨hk, hnodup⟩ := List.nodup_cons.1 hnodup
    rw [List.foldl_cons, replaceMarker,
      replaceAll_expand _ (hslots k List.mem_cons_self) hparts fun slot _ => hg slot, ih hnodup]
    · congr 1
      funext slot
      by_cases hslot : slot = k
      · simp [hslot, hk]
      · simp [hslot]
    · intro slot hslot
      rw [if_neg (ne_of_mem_of_not_mem hslot hk)]
      exact hslots slot (List.mem_cons_of_mem k hslot)
    · intro slot
      by_cases hslot : slot = k
      · rw [if_pos hslot]
        exact .inr (hf k)
      · rw [if_neg hslot]
        exact hg slot

/-- Replacing all markers one after another fills all slots at once. -/
theorem replaced_eq_fill {f : Slot → String} {parts : List (String ⊕ Slot)}
    (hparts : ∀ s, .inl s ∈ parts → isPlain s.toList = true)
    (hf : ∀ slot, isPlain (f slot).toList = true) :
    Slot.all.foldl (replaceMarker f) (Template.fill parts Slot.marker).toList =
      (Template.fill parts f).toList := by
  rw [fill_toList, fill_toList, foldl_replaceMarker hparts hf Slot.all (by decide) (fun _ _ => rfl)
    fun _ => .inl rfl]
  congr 1
  funext slot
  exact if_pos slot.mem_all

end Composition

end Solwright
