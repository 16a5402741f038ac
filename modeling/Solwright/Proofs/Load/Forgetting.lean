import Solwright.Proofs.Load.History

/-! When a failed load is forgotten. It leaves the slot with the first caller that is told of the
failure; callers that give up before that leave it there, and the next call is given the old failure
instead of a load of its own. -/

namespace Solwright.Loader.History

variable {α : Type}

/-- Somebody has been told that a load failed. -/
def Known (h : History α) (i : Nat) : Prop :=
  ∃ c r, (c, i) ∈ h.joined ∧ (c, .unavailable r) ∈ h.given

/-- What becomes of loads that have ended: the failures that are known are those out of the slot. -/
structure Settled (h : History α) : Prop where
  known_out : ∀ i, h.Known i → h.loader.slot ≠ some i
  out_known : ∀ i, i < h.loader.loads.length → h.loader.slot ≠ some i →
    h.Known i ∨ h.loader.cached ≠ none
  told_joined : ∀ c r, (c, .unavailable r) ∈ h.given → ∃ i, (c, i) ∈ h.joined
  joined_waits : ∀ c i, (c, i) ∈ h.joined → (c, i) ∈ h.loader.waiting ∨ ∃ d, (c, d) ∈ h.given

theorem settled_init : Settled ({} : History α) := by
  constructor <;> simp [Known]

theorem Known.failed {h : History α} (hi : Inv h) {i : Nat} (hk : h.Known i) :
    ∃ r, h.load? i = some (.failed r) := by
  obtain ⟨c, r, hj, hg⟩ := hk
  exact ⟨r, hi.given_fits c _ hg i hj⟩

theorem Known.lt {h : History α} (hi : Inv h) {i : Nat} (hk : h.Known i) :
    i < h.loader.loads.length := by
  obtain ⟨r, hr⟩ := hk.failed hi
  exact (List.getElem?_eq_some_iff.1 hr).1

theorem known_wait {h : History α} (hi : Inv h) (l : Loader α) (i j : Nat) :
    (h.wait l i).Known j ↔ h.Known j := by
  constructor
  · rintro ⟨c, r, hj, hg⟩
    have hlt := hi.given_called c _ hg
    rcases List.mem_append.1 hj with hj | hj
    · exact ⟨c, r, hj, hg⟩
    · rw [List.mem_singleton, Prod.mk.injEq] at hj
      omega
  · rintro ⟨c, r, hj, hg⟩
    exact ⟨c, r, List.mem_append_left _ hj, hg⟩

theorem known_leave {h : History α} (l : Loader α) (c j : Nat) (d : Delivery α) :
    (h.leave l c d).Known j ↔ h.Known j ∨ ((c, j) ∈ h.joined ∧ ∃ r, d = .unavailable r) := by
  simp only [Known, leave, List.mem_append, List.mem_singleton, Prod.mk.injEq]
  constructor
  · rintro ⟨c', r, hj, hg | ⟨rfl, hd⟩⟩
    · exact .inl ⟨c', r, hj, hg⟩
    · exact .inr ⟨hj, r, hd.symm⟩
  · rintro (⟨c', r, hj, hg⟩ | ⟨hj, r, rfl⟩)
    · exact ⟨c', r, hj, .inl hg⟩
    · exact ⟨c, r, hj, .inr ⟨rfl, rfl⟩⟩

theorem settled_wait {h : History α} (hi : Inv h) (hs : Settled h) {l : Loader α} {i : Nat}
    (hw : l.waiting = h.loader.waiting) (hslot : ∀ j, h.Known j → j ≠ i)
    (hout : ∀ j, j < l.loads.length → j ≠ i → h.Known j ∨ l.cached ≠ none) :
    Settled (h.wait l i) where
  known_out j hj := by
    rw [known_wait hi] at hj
    simpa [wait, eq_comm] using hslot j hj
  out_known j hlt hj := by
    rw [known_wait hi]
    exact hout j hlt fun he => hj (by simp [wait, he])
  told_joined c r hg := by
    obtain ⟨j, hj⟩ := hs.told_joined c r hg
    exact ⟨j, List.mem_append_left _ hj⟩
  joined_waits c j hj := by
    simp only [wait, hw, List.mem_append] at hj ⊢
    rcases hj with hj | hj
    · exact (hs.joined_waits c j hj).imp_left .inl
    · exact .inl (.inr hj)

/-- A caller that leaves is given something. -/
theorem leave_waits {h : History α} (hs : Settled h) (l : Loader α) (c : Nat) (d : Delivery α) :
    ∀ c' j, (c', j) ∈ (h.leave l c d).joined → (c', j) ∈ (h.leave l c d).loader.waiting ∨
      ∃ d', (c', d') ∈ (h.leave l c d).given := by
  intro c' j hj
  by_cases hc : c' = c
  · exact .inr ⟨d, by simp [leave, hc]⟩
  · rcases hs.joined_waits c' j hj with hw | ⟨d', hg⟩
    · exact .inl (List.mem_filter.2 ⟨hw, by simpa using hc⟩)
    · exact .inr ⟨d', List.mem_append_left _ hg⟩

theorem leave_told {h : History α} (hi : Inv h) (hs : Settled h) {l : Loader α} {c i : Nat}
    {d : Delivery α} (hw : (c, i) ∈ h.loader.waiting) :
    ∀ c' r, (c', .unavailable r) ∈ (h.leave l c d).given → ∃ j, (c', j) ∈ (h.leave l c d).joined := by
  intro c' r hg
  rcases List.mem_append.1 hg with hg | hg
  · exact hs.told_joined c' r hg
  · obtain ⟨rfl, -⟩ := Prod.mk.inj (List.mem_singleton.1 hg)
    exact ⟨i, hi.waiting_joined _ hw⟩

theorem settled_fail {h : History α} (hi : Inv h) (hs : Settled h) {c i : Nat} {r : String}
    (hw : (c, i) ∈ h.loader.waiting) :
    Settled (h.leave { h.loader with slot := if h.loader.slot = some i then none else h.loader.slot } c
      (.unavailable r)) where
  known_out j hj := by
    rw [known_leave] at hj
    have hcase : h.Known j ∨ j = i :=
      hj.imp_right fun hj => hi.joined_once c j i hj.1 (hi.waiting_joined _ hw)
    simp only [leave]
    split
    · simp
    · rcases hcase with hk | rfl
      · exact hs.known_out j hk
      · assumption
  out_known j hlt hj := by
    rw [known_leave]
    by_cases hij : j = i
    · subst hij
      exact .inl (.inr ⟨hi.waiting_joined _ hw, r, rfl⟩)
    · have hslot : h.loader.slot ≠ some j := by
        intro hsl
        simp only [leave, hsl, Option.some.injEq, if_neg hij] at hj
        exact hj rfl
      exact (hs.out_known j hlt hslot).imp_left .inl
  told_joined := leave_told hi hs hw
  joined_waits := leave_waits hs _ c _

theorem settled_step {h h' : History α} {a : Act α} (hi : Inv h) (hs : Settled h) (hstep : Step h a h') :
    Settled h' := by
  cases hstep with
  | kept x hx =>
    have hknown : ∀ j, Known { h with
        calls := h.calls + 1, given := h.given ++ [(h.calls, .handle x)] } j ↔ h.Known j := by
      simp [Known]
    exact {
      known_out := fun j hj => hs.known_out j ((hknown j).1 hj)
      out_known := fun j hlt hj => .inr (by simp [hx])
      told_joined := fun c r hg => hs.told_joined c r (by simpa using hg)
      joined_waits := fun c j hj => (hs.joined_waits c j hj).imp_right fun ⟨d, hd⟩ =>
        ⟨d, List.mem_append_left _ hd⟩ }
  | join i hc hslot =>
    refine settled_wait hi hs rfl (fun j hj he => hs.known_out j hj (he ▸ hslot)) fun j hlt hj => ?_
    exact hs.out_known j hlt (by simpa [hslot, eq_comm] using hj)
  | start hc hslot =>
    refine settled_wait hi hs rfl (fun j hj => Nat.ne_of_lt (hj.lt hi)) fun j hlt hj => ?_
    simp only [List.length_append, List.length_singleton] at hlt
    exact hs.out_known j (by omega) (by simp [hslot])
  | finish i outcome hr => exact { hs with out_known := fun j hlt => hs.out_known j (by simpa using hlt) }
  | succeed c i x hw hx =>
    exact {
      known_out := fun j _ => by simp [leave]
      out_known := fun j _ _ => .inr (by simp [leave])
      told_joined := leave_told hi hs hw
      joined_waits := leave_waits hs _ c _ }
  | fail c i r hw hr => exact settled_fail hi hs hw
  | giveUp c i hw =>
    have hknown : ∀ j, (h.leave h.loader c .cancelled).Known j ↔ h.Known j := by
      intro j
      simp [known_leave]
    exact {
      known_out := fun j hj => hs.known_out j ((hknown j).1 hj)
      out_known := fun j hlt hj => (hs.out_known j hlt hj).imp_left (hknown j).2
      told_joined := leave_told hi hs hw
      joined_waits := leave_waits hs _ c _ }
  | idle a ha => exact hs

theorem settled_foldl {h : History α} (hi : Inv h) (hs : Settled h) (as : List (Act α)) :
    Settled (as.foldl after h) := by
  induction as generalizing h with
  | nil => exact hs
  | cons a as ih =>
    have hstep := step_after h a
    exact ih (inv_step hi hstep) (settled_step hi hs hstep)

theorem settled_of (as : List (Act α)) : Settled (of as) := settled_foldl inv_init settled_init as

theorem known_step {h h' : History α} {a : Act α} (hi : Inv h) (hstep : Step h a h') {i : Nat}
    (hk : h.Known i) : h'.Known i := by
  cases hstep with
  | kept x hx =>
    obtain ⟨c, r, hj, hg⟩ := hk
    exact ⟨c, r, hj, List.mem_append_left _ hg⟩
  | join j hc hs => exact (known_wait hi _ j i).2 hk
  | start hc hs => exact (known_wait hi _ _ i).2 hk
  | finish j outcome hr => exact hk
  | succeed c j x hw hx => exact (known_leave _ c i _).2 (.inl hk)
  | fail c j r hw hr => exact (known_leave _ c i _).2 (.inl hk)
  | giveUp c j hw => exact (known_leave _ c i _).2 (.inl hk)
  | idle a ha => exact hk

/-- Nobody joins a load whose failure is known. -/
theorem joined_step {h h' : History α} {a : Act α} (hi : Inv h) (hs : Settled h) (hstep : Step h a h')
    {c i : Nat} (hj : (c, i) ∈ h'.joined) : (c, i) ∈ h.joined ∨ ¬h.Known i := by
  cases hstep with
  | join j hc hslot =>
    rcases List.mem_append.1 hj with hj | hj
    · exact .inl hj
    · obtain ⟨-, rfl⟩ := Prod.mk.inj (List.mem_singleton.1 hj)
      exact .inr fun hk => hs.known_out i hk hslot
  | start hc hslot =>
    rcases List.mem_append.1 hj with hj | hj
    · exact .inl hj
    · obtain ⟨-, rfl⟩ := Prod.mk.inj (List.mem_singleton.1 hj)
      exact .inr fun hk => Nat.lt_irrefl _ (hk.lt hi)
  | kept | finish | succeed | fail | giveUp | idle => exact .inl hj

theorem joined_foldl {h : History α} (hi : Inv h) (hs : Settled h) {as : List (Act α)} {c i : Nat}
    (hj : (c, i) ∈ (as.foldl after h).joined) : (c, i) ∈ h.joined ∨ ¬h.Known i := by
  induction as generalizing h with
  | nil => exact .inl hj
  | cons a as ih =>
    have hstep := step_after h a
    rcases ih (inv_step hi hstep) (settled_step hi hs hstep) hj with hj | hk
    · exact joined_step hi hs hstep hj
    · exact .inr fun h => hk (known_step hi hstep h)

/-- A load that has failed unknown to all was joined by callers that wait still or have given up. -/
theorem waits_of_not_known {h : History α} (hi : Inv h) (hs : Settled h) {c i : Nat} {r : String}
    (hr : h.load? i = some (.failed r)) (hk : ¬h.Known i) (hj : (c, i) ∈ h.joined) :
    (c, i) ∈ h.loader.waiting ∨ (c, .cancelled) ∈ h.given := by
  refine (hs.joined_waits c i hj).imp_right fun ⟨d, hd⟩ => ?_
  cases d with
  | handle x => simpa [hr] using (hi.given_fits c _ hd).2 i hj
  | unavailable r' => exact absurd ⟨c, r', hj, hd⟩ hk
  | cancelled => exact hd

/-- Where no load runs and none has succeeded, all loads have failed. -/
theorem failed_of_idle {h : History α} (hrun : ∀ i, h.load? i ≠ some .running)
    (hready : ∀ i x, h.load? i ≠ some (.ready x)) {i : Nat} (hlt : i < h.loader.loads.length) :
    ∃ r, h.load? i = some (.failed r) := by
  have hsome : h.load? i = some h.loader.loads[i] := List.getElem?_eq_getElem hlt
  cases hl : h.loader.loads[i] with
  | running => exact absurd (hsome.trans (congrArg some hl)) (hrun i)
  | ready x => exact absurd (hsome.trans (congrArg some hl)) (hready i x)
  | failed r => exact ⟨r, hsome.trans (congrArg some hl)⟩

/-- Where no load has succeeded, no handle is kept. -/
theorem cached_of_idle {h : History α} (hi : Inv h) (hready : ∀ i x, h.load? i ≠ some (.ready x)) :
    h.loader.cached = none := by
  cases hc : h.loader.cached with
  | none => rfl
  | some x =>
    obtain ⟨-, i, hx⟩ := hi.cached_ready x hc
    exact absurd hx (hready i x)

theorem call_starts_iff {h : History α} (hc : h.loader.cached = none) :
    (h.after .call).loader.loads = h.loader.loads ++ [.running] ↔ h.loader.slot = none := by
  cases hs : h.loader.slot with
  | none => simp [after, event, step, enter, hc, hs]
  | some i => simp [after, event, step, enter, hc, hs]

theorem call_joins {h : History α} (hi : Inv h) (hc : h.loader.cached = none) {i : Nat} {r : String}
    (hs : h.loader.slot = some i) (hr : h.load? i = some (.failed r)) :
    (h.calls, i) ∈ (h.after .call).joined ∧
      ((h.after .call).after (.resume h.calls)).given = h.given ++ [(h.calls, .unavailable r)] := by
  have hcall : h.after .call = h.wait h.loader i := by
    simp [after, event, step, enter, wait, hc, hs]
  have hnew : ∀ j, (h.calls, j) ∉ h.loader.waiting := fun j hw =>
    Nat.lt_irrefl _ (hi.joined_called _ (hi.waiting_joined _ hw))
  have hlook : (h.wait h.loader i).loader.waiting.lookup h.calls = some i := by
    rw [List.lookup_eq_some_iff]
    refine ⟨h.loader.waiting, [], rfl, fun p hp => ?_⟩
    rw [bne_iff_ne]
    intro hp'
    exact hnew p.2 (hp' ▸ hp)
  have hload : (h.wait h.loader i).loader.loads[i]? = some (.failed r) := hr
  rw [hcall]
  refine ⟨by simp [wait], ?_⟩
  simp only [after, event, step, Loader.resume, hlook, hload]
  rfl

/-- Where no handle is kept, a call starts a load exactly if every failure is known. -/
theorem call_starts_iff_known {h : History α} (hi : Inv h) (hs : Settled h)
    (hc : h.loader.cached = none) :
    (h.after .call).loader.loads = h.loader.loads ++ [.running] ↔
      ∀ i < h.loader.loads.length, h.Known i := by
  rw [call_starts_iff hc]
  constructor
  · intro hslot i hlt
    exact (hs.out_known i hlt (by simp [hslot])).resolve_right (by simp [hc])
  · intro hall
    cases hslot : h.loader.slot with
    | none => rfl
    | some i =>
      have hlast := hi.slot_last i hslot
      exact absurd hslot (hs.known_out i (hall i (by omega)))

/-- A failure that nobody knows of is given to the next call. -/
theorem call_given_unknown {h : History α} (hi : Inv h) (hs : Settled h) (hc : h.loader.cached = none)
    {i : Nat} {r : String} (hr : h.load? i = some (.failed r)) (hk : ¬h.Known i) :
    (h.calls, i) ∈ (h.after .call).joined ∧
      ((h.after .call).after (.resume h.calls)).given = h.given ++ [(h.calls, .unavailable r)] := by
  refine call_joins hi hc ?_ hr
  by_contra hne
  exact (hs.out_known i (List.getElem?_eq_some_iff.1 hr).1 hne).elim hk (by simp [hc])

/-- The failures that later calls are given were not known when they were made. -/
theorem told_late {acts more : List (Act α)} {c : Nat} {r : String} (hc : (of acts).calls ≤ c)
    (hg : (c, .unavailable r) ∈ (of (acts ++ more)).given) :
    ∃ i, (c, i) ∈ (of (acts ++ more)).joined ∧ (of (acts ++ more)).load? i = some (.failed r) ∧
      ¬(of acts).Known i := by
  obtain ⟨i, hj⟩ := (settled_of (acts ++ more)).told_joined c r hg
  refine ⟨i, hj, (inv_of (acts ++ more)).given_fits c _ hg i hj, ?_⟩
  have hj' : (c, i) ∈ (more.foldl after (of acts)).joined := of_append acts more ▸ hj
  refine (joined_foldl (inv_of acts) (settled_of acts) hj').resolve_left fun hold => ?_
  exact Nat.lt_irrefl _ (Nat.lt_of_lt_of_le ((inv_of acts).joined_called _ hold) hc)

/-- A call made when no load runs and none has succeeded starts a load exactly if every failure is
known. A failure that is not known is given to it in place of a load of its own; whoever waited for
that load waits still or has given up. A failure that is known is given to no later call. -/
theorem forgotten_iff_known (acts more : List (Act α)) :
    let h := of acts
    let h' := of (acts ++ more)
    ((∀ i, h.load? i ≠ some .running) → (∀ i x, h.load? i ≠ some (.ready x)) →
      ((h.after .call).loader.loads = h.loader.loads ++ [.running] ↔
        ∀ i < h.loader.loads.length, h.Known i) ∧
      ∀ i < h.loader.loads.length, ¬h.Known i →
        (∀ c, (c, i) ∈ h.joined → (c, i) ∈ h.loader.waiting ∨ (c, .cancelled) ∈ h.given) ∧
        ∃ r, h.load? i = some (.failed r) ∧ (h.calls, i) ∈ (h.after .call).joined ∧
          ((h.after .call).after (.resume h.calls)).given =
            h.given ++ [(h.calls, .unavailable r)]) ∧
    ∀ c r, h.calls ≤ c → (c, .unavailable r) ∈ h'.given →
      ∃ i, (c, i) ∈ h'.joined ∧ h'.load? i = some (.failed r) ∧ ¬h.Known i := by
  intro h h'
  have hi : Inv h := inv_of acts
  have hs : Settled h := settled_of acts
  refine ⟨fun hrun hready => ?_, fun c r hc hg => told_late hc hg⟩
  have hcached := cached_of_idle hi hready
  refine ⟨call_starts_iff_known hi hs hcached, fun i hlt hk => ?_⟩
  obtain ⟨r, hr⟩ := failed_of_idle hrun hready hlt
  exact ⟨fun c hj => waits_of_not_known hi hs hr hk hj, r, hr, call_given_unknown hi hs hcached hr hk⟩

/-- The only caller gives up before its load fails, and the next one is given that failure. -/
theorem forgotten_not_given_up :
    let h : History Unit := of [.call, .cancel 0, .finish 0 (.failed "offline")]
    (∀ i, h.load? i ≠ some .running) ∧ (∀ i x, h.load? i ≠ some (.ready x)) ∧
      (h.after .call).loader.loads ≠ h.loader.loads ++ [.running] ∧
      (1, .unavailable "offline") ∈ ((h.after .call).after (.resume 1)).given := by
  intro h
  have hone : ∀ i l, h.load? i = some l → l = .failed "offline" := by
    rintro (_ | i) l hl
    · exact (Option.some.inj hl).symm
    · cases hl
  have hrun : ∀ i, h.load? i ≠ some .running := fun i hl => by cases hone i _ hl
  have hready : ∀ i x, h.load? i ≠ some (.ready x) := fun i x hl => by cases hone i _ hl
  have hunknown : ¬h.Known 0 := by
    rintro ⟨c, r, -, hg⟩
    have hgiven : h.given = [(0, .cancelled)] := rfl
    simp [hgiven] at hg
  obtain ⟨hfresh, hold⟩ :=
    (forgotten_iff_known [.call, .cancel 0, .finish 0 (.failed "offline")] []).1 hrun hready
  refine ⟨hrun, hready, fun hnew => hunknown (hfresh.1 hnew 0 (by decide)), ?_⟩
  obtain ⟨-, r, hr, -, hgiven⟩ := hold 0 (by decide) hunknown
  obtain rfl : r = "offline" := by simpa using hone 0 _ hr
  have hcalls : h.calls = 1 := rfl
  rw [← hcalls, hgiven]
  exact List.mem_append_right _ (List.mem_singleton_self _)

end Solwright.Loader.History
