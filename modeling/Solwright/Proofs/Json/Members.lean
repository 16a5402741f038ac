import Solwright.Json.Basic

/-! Looking up by keys, as in members of objects, also of those to which others have been added. The keys are texts, and
each text is a value of its own. -/

namespace Solwright

theorem RawText.json_injective : Function.Injective RawText.json := by
  intro s t h
  cases s <;> cases t <;> cases h <;> rfl

theorem Json.json_ofCodes (ns : List Nat) : (RawText.ofCodes ns).json = ofCodes ns := by
  unfold RawText.ofCodes ofCodes
  split <;> rfl

theorem mem_of_lookup {α β : Type} [BEq α] [LawfulBEq α] {ps : List (α × β)} {key : α} {v : β}
    (h : ps.lookup key = some v) : (key, v) ∈ ps := by
  obtain ⟨l, r, rfl, -⟩ := List.lookup_eq_some_iff.1 h
  simp

variable {κ α : Type} [DecidableEq κ]

theorem lookup_putMember_self (key : κ) (v : α) (ms : List (κ × α)) :
    (putMember key v ms).lookup key = some v := by
  induction ms with
  | nil => simp [putMember]
  | cons m ms ih =>
    rw [putMember]
    split
    next heq => simp [heq]
    next hne =>
      have hkey : (key == m.1) = false := beq_eq_false_iff_ne.2 (Ne.symm hne)
      rw [List.lookup_cons, hkey]
      exact ih

theorem lookup_putMember_of_ne {key key' : κ} (h : key' ≠ key) (v : α) (ms : List (κ × α)) :
    (putMember key v ms).lookup key' = ms.lookup key' := by
  have hkey : (key' == key) = false := beq_eq_false_iff_ne.2 h
  induction ms with
  | nil => simp [putMember, h]
  | cons m ms ih =>
    obtain ⟨k, w⟩ := m
    rw [putMember]
    split
    next heq =>
      subst heq
      rw [List.lookup_cons, List.lookup_cons, hkey]
    next => rw [List.lookup_cons, List.lookup_cons, ih]

/-- Under a key to which all members with it give one value, that value is found. -/
theorem lookup_of_forall {key : κ} {v : α} {ms : List (κ × α)} (hmem : (key, v) ∈ ms)
    (hall : ∀ m ∈ ms, m.1 = key → m.2 = v) : ms.lookup key = some v := by
  cases hlookup : ms.lookup key with
  | none => exact absurd (List.lookup_eq_none_iff.1 hlookup _ hmem) (by simp)
  | some w => exact congrArg some (hall _ (mem_of_lookup hlookup) rfl)

theorem mem_putMember {key : κ} {v : α} {ms : List (κ × α)} {m : κ × α}
    (h : m ∈ putMember key v ms) : m = (key, v) ∨ m ∈ ms := by
  induction ms with
  | nil => exact .inl (List.mem_singleton.1 h)
  | cons m' ms ih =>
    rw [putMember] at h
    split at h
    next heq =>
      rcases List.mem_cons.1 h with rfl | h
      · exact .inl (congrArg (·, v) heq)
      · exact .inr (List.mem_cons_of_mem m' h)
    next =>
      rcases List.mem_cons.1 h with rfl | h
      · exact .inr List.mem_cons_self
      · exact (ih h).imp_right (List.mem_cons_of_mem m')

theorem mem_putMembers {base more : List (κ × α)} {m : κ × α} (h : m ∈ putMembers base more) :
    m ∈ base ∨ m ∈ more := by
  unfold putMembers at h
  induction more generalizing base with
  | nil => exact .inl h
  | cons m' more ih =>
    rcases ih h with h | h
    · rcases mem_putMember h with rfl | h
      · exact .inr List.mem_cons_self
      · exact .inl h
    · exact .inr (List.mem_cons_of_mem m' h)

/-- Of all members that are added under a key the last one counts. -/
theorem lookup_putMembers (base more : List (κ × α)) (key : κ) :
    (putMembers base more).lookup key = (more.reverse.lookup key).or (base.lookup key) := by
  unfold putMembers
  induction more generalizing base with
  | nil => rfl
  | cons m more ih =>
    rw [List.foldl_cons, ih, List.reverse_cons, List.lookup_append, Option.or_assoc]
    congr 1
    obtain ⟨k, w⟩ := m
    by_cases hkey : key = k
    · subst hkey
      simp [lookup_putMember_self]
    · rw [lookup_putMember_of_ne hkey, List.lookup_cons, beq_eq_false_iff_ne.2 hkey]
      rfl

end Solwright
