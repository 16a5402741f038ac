import Solwright.Proofs.Load.History

/-! Many callers share one load. Whatever the order of calls, ends of loads, callers that go on and
callers that give up, one load at most runs and one at most succeeds, and everybody who gets a
handle gets that one. -/

namespace Solwright

variable {α : Type}

def Load.hasFailed : Load α → Bool
  | .failed _ => true
  | _ => false

namespace Loader.History

theorem loads_le_failed {h : History α} (hi : Inv h) :
    h.loader.loads.length ≤ h.loader.loads.countP Load.hasFailed + 1 := by
  have hall : h.loader.loads.dropLast.countP Load.hasFailed = h.loader.loads.dropLast.length := by
    rw [List.countP_eq_length]
    intro l hl
    obtain ⟨i, hlt, rfl⟩ := List.getElem_of_mem hl
    rw [List.length_dropLast] at hlt
    obtain ⟨r, hr⟩ := hi.older_failed i (by omega)
    rw [load?, List.getElem?_eq_getElem (by omega)] at hr
    rw [List.getElem_dropLast, Option.some.inj hr]
    rfl
  have hle := (List.dropLast_sublist h.loader.loads).countP_le (p := Load.hasFailed)
  rw [hall, List.length_dropLast] at hle
  omega

theorem cached_foldl {h : History α} (hi : Inv h) {x : α} (hx : h.loader.cached = some x)
    (as : List (Act α)) : (as.foldl after h).loader.cached = some x := by
  induction as generalizing h with
  | nil => exact hx
  | cons a as ih =>
    have hs := step_after h a
    exact ih (inv_step hi hs) (cached_step hi hs hx)

theorem cancelled_foldl {h : History α} {c : Nat} {as : List (Act α)}
    (hm : (c, .cancelled) ∈ (as.foldl after h).given) :
    (c, .cancelled) ∈ h.given ∨ .cancel c ∈ as := by
  induction as generalizing h with
  | nil => exact .inl hm
  | cons a as ih =>
    rcases ih hm with hm | hm
    · exact (given_step (step_after h a) hm).imp id fun ha => by simp [ha]
    · exact .inr (List.mem_cons_of_mem a hm)

theorem given_of_failed {h : History α} (hi : Inv h) {c i : Nat} {r : String} {d : Delivery α}
    (hj : (c, i) ∈ h.joined) (hr : h.load? i = some (.failed r)) (hd : (c, d) ∈ h.given) :
    d = .unavailable r ∨ d = .cancelled := by
  have hf := hi.given_fits c d hd
  cases d with
  | handle x => exact absurd (hf.2 i hj) (by simp [hr])
  | unavailable r' => exact .inl (by simpa [hr, eq_comm] using hf i hj)
  | cancelled => exact .inr rfl

theorem late_waiter_keeps_slot {h h' : History α} (hi : Inv h) {c i j : Nat} {r : String}
    (hstep : Step h (.resume c) h') (hw : (c, i) ∈ h.loader.waiting)
    (hr : h.load? i = some (.failed r)) (hs : h.loader.slot = some j) (hne : j ≠ i) :
    h'.loader.slot = some j := by
  have honce : ∀ k, (c, k) ∈ h.loader.waiting → k = i := fun k hk =>
    hi.joined_once c k i (hi.waiting_joined _ hk) (hi.waiting_joined _ hw)
  cases hstep with
  | succeed _ k x hk hx =>
    obtain rfl := honce _ hk
    simp [hr] at hx
  | fail _ k _ hk _ =>
    obtain rfl := honce _ hk
    simp [leave, hs, hne]
  | idle => exact hs

/-- In every history of a shared load: at most one load runs, and it stays in the slot while it
does; at most one load has ever succeeded, every handle that was given is its, and it is kept for
ever; all loads but one have failed; who joined a load that failed learns of that or has given up
of itself; and who learns of it late leaves the slot to a newer load. -/
theorem shared_load_safe (acts : List (Act α)) :
    let h := of acts
    (∀ i j, h.load? i = some .running → h.load? j = some .running → i = j) ∧
    (∀ i a, h.load? i = some .running → (h.after a).loader.slot = some i) ∧
    (∀ i j x y, h.load? i = some (.ready x) → h.load? j = some (.ready y) → i = j ∧ x = y) ∧
    (∀ c x, (c, .handle x) ∈ h.given → ∃ i, h.load? i = some (.ready x)) ∧
    (∀ x more, h.loader.cached = some x → (of (acts ++ more)).loader.cached = some x) ∧
    h.loader.loads.length ≤ h.loader.loads.countP Load.hasFailed + 1 ∧
    (∀ c i r d, (c, i) ∈ h.joined → h.load? i = some (.failed r) → (c, d) ∈ h.given →
      d = .unavailable r ∨ d = .cancelled ∧ .cancel c ∈ acts) ∧
    (∀ c i j r, (c, i) ∈ h.loader.waiting → h.load? i = some (.failed r) →
      h.loader.slot = some j → j ≠ i → (h.after (.resume c)).loader.slot = some j) := by
  intro h
  have hi : Inv h := inv_of acts
  refine ⟨?_, fun i a => running_keeps_slot hi (step_after h a), fun i j x y => hi.ready_unique,
    fun c x hm => (hi.given_fits c _ hm).1, ?_, loads_le_failed hi, ?_,
    fun c i j r => late_waiter_keeps_slot hi (step_after h _)⟩
  · intro i j hr hs
    have h1 := hi.last hr (by simp)
    have h2 := hi.last hs (by simp)
    omega
  · intro x more hx
    rw [of_append]
    exact cached_foldl hi hx more
  · intro c i r d hj hr hd
    rcases given_of_failed hi hj hr hd with rfl | rfl
    · exact .inl rfl
    · refine .inr ⟨rfl, ?_⟩
      rcases cancelled_foldl hd with hm | hm
      · cases hm
      · exact hm

end Loader.History

end Solwright
