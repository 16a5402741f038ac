import Solwright.Schema

/-! The fields of a record whose values pass their checks. -/

namespace Solwright.Schema

variable {α β : Type} {f : Field} {check : Json → Checked α} {ms : List (RawText × Json)} {k : String}
  {v : Json} {a : α}

/-- A field is looked for under the name that it has in data first. -/
theorem Field.find?_of_lookup (h : ms.lookup (.formed f.label) = some v) : f.find? ms = some (f.label, v) := by
  rw [Field.find?, h]

theorem within_eq_accept {c : Checked α} {step : Step} : c.within step = .accept a ↔ c = .accept a := by
  cases c with
  | ok b => exact Iff.rfl
  | error ps => exact ⟨nofun, nofun⟩

theorem required_eq_accept_iff (hf : f.find? ms = some (k, v)) :
    required f check ms = .accept a ↔ check v = .accept a := by
  rw [required, hf]
  exact within_eq_accept

theorem optional_eq_accept_iff {default : α} (hf : f.find? ms = some (k, v)) :
    optional f check default ms = .accept a ↔ check v = .accept a := by
  rw [Schema.optional, hf]
  exact within_eq_accept

theorem required_eq_accept (hf : f.find? ms = some (k, v)) (hv : check v = .accept a) :
    required f check ms = .accept a :=
  (required_eq_accept_iff hf).2 hv

theorem optional_eq_accept {default : α} (hf : f.find? ms = some (k, v)) (hv : check v = .accept a) :
    optional f check default ms = .accept a :=
  (optional_eq_accept_iff hf).2 hv

theorem Field.lookup_of_find? (h : f.find? ms = some (k, v)) : ms.lookup (.formed k) = some v := by
  unfold Field.find? at h
  split at h
  next hlabel =>
    cases h
    exact hlabel
  next =>
    obtain ⟨w, hw, hpair⟩ := Option.map_eq_some_iff.1 h
    cases hpair
    exact hw

/-- What is accepted in a field is made of one of the values there are. -/
theorem exists_of_required (h : required f check ms = .accept a) :
    ∃ key : RawText, ∃ v, ms.lookup key = some v ∧ check v = .accept a := by
  unfold required at h
  split at h
  next key v hfind => exact ⟨.formed key, v, f.lookup_of_find? hfind, within_eq_accept.1 h⟩
  next => cases h

theorem exists_of_optional {default : α} (h : optional f check default ms = .accept a) :
    a = default ∨ ∃ key : RawText, ∃ v, ms.lookup key = some v ∧ check v = .accept a := by
  unfold Schema.optional at h
  split at h
  next key v hfind => exact .inr ⟨.formed key, v, f.lookup_of_find? hfind, within_eq_accept.1 h⟩
  next => exact .inl (Except.ok.inj h).symm

/-- A record is read where all its checks accept. -/
theorem named_eq_ok {c : Checked α} {record : String} : c.named record = .ok a ↔ c = .accept a := by
  cases c with
  | ok b => exact ⟨fun h => congrArg Except.ok (Except.ok.inj h), fun h => congrArg Except.ok (Except.ok.inj h)⟩
  | error ps => exact ⟨nofun, nofun⟩

theorem map_eq_accept {g : α → β} {x : Checked α} {b : β} :
    g <$> x = .accept b ↔ ∃ a, x = .accept a ∧ g a = b := by
  constructor
  · intro h
    rcases x with ps | a <;> cases h
    exact ⟨a, rfl, rfl⟩
  · rintro ⟨a, rfl, rfl⟩
    rfl

theorem seq_eq_accept {g : Checked (α → β)} {x : Checked α} {b : β} :
    g <*> x = .accept b ↔ ∃ h a, g = .accept h ∧ x = .accept a ∧ h a = b := by
  change Checked.ap g (fun _ => x) = .accept b ↔ _
  constructor
  · intro h
    rcases g with ps | g <;> rcases x with qs | a <;> cases h
    exact ⟨g, a, rfl, rfl, rfl⟩
  · rintro ⟨h, a, rfl, rfl, rfl⟩
    rfl

theorem text_json (s : RawText) : text s.json = .accept s := by
  cases s <;> rfl

/-- A list of values that pass a check one by one. -/
theorem items_map {g : β → Json} {shown : β → α} (h : ∀ x, check (g x) = .accept (shown x))
    (xs : List β) (i : Nat) : items check i (xs.map g) = .accept (xs.map shown) := by
  induction xs generalizing i with
  | nil => rfl
  | cons x xs ih =>
    rw [List.map_cons, items, ih, h]
    rfl

end Solwright.Schema
