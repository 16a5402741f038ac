import Mathlib.Data.List.Forall2
import Solwright.Proofs.Family.Spelling
import Solwright.Proofs.Schema.Fields
import Solwright.Proofs.Suggestion.Request

/-! The values that the checks of fields accept, and what is made of each. -/

namespace Solwright

open Solwright.Text

namespace Schema

variable {α : Type} {check : Json → Checked α} {v : Json} {s : String}

theorem accept_eq_accept {a b : α} : (Checked.accept a : Checked α) = .accept b ↔ a = b :=
  ⟨Except.ok.inj, congrArg Except.ok⟩

theorem refuse_ne_accept {cause : Cause} {a : α} : Checked.refuse cause v ≠ .accept a := nofun

theorem text_eq_accept {t : RawText} : text v = .accept t ↔ v = t.json := by
  constructor
  · intro h
    cases v with
    | str s => exact accept_eq_accept.1 h ▸ rfl
    | illFormed codes => exact accept_eq_accept.1 h ▸ rfl
    | _ => cases h
  · rintro rfl
    exact text_json t

theorem wellFormedText_eq_accept : wellFormedText v = .accept s ↔ v = .str s := by
  constructor
  · intro h
    cases v with
    | str t => rw [accept_eq_accept.1 h]
    | _ => cases h
  · rintro rfl
    rfl

theorem andThen_eq_accept {β : Type} {c : Checked α} {f : α → Checked β} {b : β} :
    c.andThen f = .accept b ↔ ∃ a, c = .accept a ∧ f a = .accept b := by
  cases c with
  | ok a =>
    refine ⟨fun h => ⟨a, rfl, h⟩, ?_⟩
    rintro ⟨a', ha, h⟩
    rwa [← accept_eq_accept.1 ha] at h
  | error ps => exact ⟨nofun, nofun⟩

theorem someText_eq_accept : someText v = .accept s ↔ v = .str s ∧ s ≠ "" := by
  simp only [someText, andThen_eq_accept, wellFormedText_eq_accept]
  constructor
  · rintro ⟨t, rfl, h⟩
    split at h
    next => cases h
    next hne => exact accept_eq_accept.1 h ▸ ⟨rfl, by simpa using hne⟩
  · rintro ⟨rfl, hne⟩
    exact ⟨s, rfl, if_neg (by simpa using hne)⟩

/-- Null is a value of its own, whatever the check says of it. -/
theorem nullable_eq_accept {o : Option α} : nullable check v = .accept o ↔
    v = .null ∧ o = none ∨ v ≠ .null ∧ ∃ a, check v = .accept a ∧ o = some a := by
  cases v with
  | null =>
    rw [nullable, accept_eq_accept]
    simp [eq_comm]
  | _ => rw [nullable, map_eq_accept] <;> simp [eq_comm]

theorem nullable_text_eq_accept {o : Option RawText} : nullable text v = .accept o ↔ v = .rawText? o := by
  simp only [nullable_eq_accept, text_eq_accept]
  constructor
  · rintro (⟨rfl, rfl⟩ | ⟨-, t, rfl, rfl⟩) <;> rfl
  · rintro rfl
    cases o with
    | none => exact .inl ⟨rfl, rfl⟩
    | some t => exact .inr ⟨by cases t <;> nofun, t, rfl, rfl⟩

/-- The items of a list are accepted one by one. -/
theorem items_eq_accept {vs : List Json} {as : List α} (i : Nat) :
    items check i vs = .accept as ↔ List.Forall₂ (fun v a => check v = .accept a) vs as := by
  induction vs generalizing i as with
  | nil =>
    rw [items, accept_eq_accept, List.forall₂_nil_left_iff]
    exact eq_comm
  | cons v vs ih =>
    simp only [items, seq_eq_accept, map_eq_accept, within_eq_accept, ih, List.forall₂_cons_left_iff]
    constructor
    · rintro ⟨_, bs, ⟨a, ha, rfl⟩, hbs, rfl⟩
      exact ⟨a, bs, ha, hbs, rfl⟩
    · rintro ⟨a, bs, ha, hbs, rfl⟩
      exact ⟨_, bs, ⟨a, ha, rfl⟩, hbs, rfl⟩

theorem list_text_eq_accept {ss : List RawText} : list text v = .accept ss ↔ v = .rawTexts ss := by
  cases v with
  | arr vs =>
    simp only [list, items_eq_accept, text_eq_accept, Json.rawTexts, Json.arr.injEq]
    rw [← List.forall₂_eq_eq_eq, List.forall₂_map_right_iff]
  | _ => exact ⟨nofun, nofun⟩

end Schema

open Schema

theorem Family.ofJson?_eq_some_iff {v : Json} {f : Family} :
    ofJson? v = some f ↔ ∃ s, v = .str s ∧ f.IsSpelled s := by
  cases v with
  | str s => simp [ofJson?, ofText?_eq_some_iff]
  | _ => simp [ofJson?]

theorem Family.check_eq_accept {v : Json} {f : Family} :
    check v = .accept f ↔ ∃ s, v = .str s ∧ f.IsSpelled s := by
  rw [← ofJson?_eq_some_iff]
  unfold check
  split
  next hv => rw [accept_eq_accept, hv, Option.some_inj]
  next hv => simp [hv, refuse_ne_accept]
  next hv => simp [hv, refuse_ne_accept]

theorem ContractName.check_eq_accept {v : Json} {n : ContractName} : check v = .accept n ↔ v = .str n.text := by
  refine ⟨fun h => ?_, fun h => h ▸ check_text n⟩
  simp only [check, andThen_eq_accept, wellFormedText_eq_accept] at h
  obtain ⟨s, rfl, h⟩ := h
  split at h
  next => rw [← accept_eq_accept.1 h]
  next => cases h

namespace Suggestion

/-- A value is a supply, and this is what is kept of it: a number by its decimal digits, and null as none. -/
inductive IsSupply : Json → Option RawText → Prop
  | null : IsSupply .null none
  | int (n : Int) : IsSupply (.int n) (some (Number.integerText n))
  | text (s : RawText) : IsSupply s.json (some s)

theorem checkSupply_eq_accept {v : Json} {o : Option RawText} : checkSupply v = .accept o ↔ IsSupply v o := by
  constructor
  · intro h
    unfold checkSupply at h
    split at h
    next => cases h
    next n => exact accept_eq_accept.1 h ▸ .int n
    next =>
      rw [nullable_text_eq_accept.1 h]
      cases o with
      | none => exact .null
      | some t => exact .text t
  · intro h
    cases h with
    | null => rfl
    | int n => rfl
    | text s => cases s <;> rfl

end Suggestion

end Solwright
