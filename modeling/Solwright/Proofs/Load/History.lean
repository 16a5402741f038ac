import Mathlib.Tactic.Common
import Solwright.Compiler.Loader
import Solwright.Proofs.Json.Members

/-! A shared load with its past. Calls are numbered as they are made; waking up, giving up and the
ends of loads come between them in any order. `Inv` is what every such history keeps: all loads but
the last have failed, and a load leaves the slot only after it has ended. -/

namespace Solwright.Loader

variable {α : Type}

/-- What happens next: a new call, the end of a load, or a caller that goes on or gives up. -/
inductive Act (α : Type)
  | call
  | finish (load : Nat) (outcome : Load α)
  | resume (caller : Nat)
  | cancel (caller : Nat)

/-- A shared load, how many calls were made, the load that each call with a wait has joined, and
what calls were given, in order. -/
structure History (α : Type) where
  loader : Loader α := {}
  calls : Nat := 0
  joined : List (Nat × Nat) := []
  given : List (Nat × Delivery α) := []

namespace History

/-- The event of an act. The number of a call is its caller. -/
def event (h : History α) : Act α → Event α
  | .call => .enter h.calls
  | .finish i outcome => .finish i outcome
  | .resume c => .resume c
  | .cancel c => .cancel c

def after (h : History α) (a : Act α) : History α :=
  let (l, d) := h.loader.step (h.event a)
  { loader := l
    calls := match a with
      | .call => h.calls + 1
      | _ => h.calls
    joined := match a, d with
      | .call, none => h.joined ++ (l.slot.map (h.calls, ·)).toList
      | _, _ => h.joined
    given := h.given ++ d.toList }

/-- The history of a list of acts. -/
def of (acts : List (Act α)) : History α := acts.foldl after {}

@[simp] theorem of_append (as bs : List (Act α)) : of (as ++ bs) = bs.foldl after (of as) := by
  simp [of]

/-- A call that has to wait for a load. -/
def wait (h : History α) (l : Loader α) (i : Nat) : History α :=
  { h with
    loader := { l with slot := some i, waiting := l.waiting ++ [(h.calls, i)] }
    calls := h.calls + 1
    joined := h.joined ++ [(h.calls, i)] }

/-- A caller that leaves with what it is given. -/
def leave (h : History α) (l : Loader α) (c : Nat) (d : Delivery α) : History α :=
  { h with loader := { l with waiting := h.loader.without c }, given := h.given ++ [(c, d)] }

/-- All that an act can do. -/
inductive Step (h : History α) : Act α → History α → Prop
  | kept (x : α) : h.loader.cached = some x →
      Step h .call { h with calls := h.calls + 1, given := h.given ++ [(h.calls, .handle x)] }
  | join (i : Nat) : h.loader.cached = none → h.loader.slot = some i → Step h .call (h.wait h.loader i)
  | start : h.loader.cached = none → h.loader.slot = none →
      Step h .call (h.wait { h.loader with loads := h.loader.loads ++ [.running] } h.loader.loads.length)
  | finish (i : Nat) (outcome : Load α) : h.loader.loads[i]? = some .running →
      Step h (.finish i outcome)
        { h with loader := { h.loader with loads := h.loader.loads.set i outcome } }
  | succeed (c i : Nat) (x : α) : (c, i) ∈ h.loader.waiting → h.loader.loads[i]? = some (.ready x) →
      Step h (.resume c) (h.leave { h.loader with cached := some x, slot := none } c (.handle x))
  | fail (c i : Nat) (r : String) : (c, i) ∈ h.loader.waiting →
      h.loader.loads[i]? = some (.failed r) →
      Step h (.resume c)
        (h.leave { h.loader with slot := if h.loader.slot = some i then none else h.loader.slot } c
          (.unavailable r))
  | giveUp (c i : Nat) : (c, i) ∈ h.loader.waiting →
      Step h (.cancel c) (h.leave h.loader c .cancelled)
  | idle (a : Act α) : a ≠ .call → Step h a h

theorem step_after (h : History α) (a : Act α) : Step h a (h.after a) := by
  cases a with
  | call =>
    cases hc : h.loader.cached with
    | some x => simpa [after, event, step, enter, hc] using Step.kept x hc
    | none =>
      cases hs : h.loader.slot with
      | some i => simpa [after, event, step, enter, wait, hc, hs] using Step.join i hc hs
      | none => simpa [after, event, step, enter, wait, hc, hs] using Step.start hc hs
  | finish i outcome =>
    simp only [after, event, step, Loader.finish, Option.toList_none, List.append_nil]
    split
    next hi => exact .finish i outcome hi
    next => exact .idle _ (by simp)
  | resume c =>
    simp only [after, event, step, Loader.resume]
    split
    next => simpa using Step.idle (h := h) (.resume c) (by simp)
    next i hw =>
      have hm := mem_of_lookup hw
      split
      next x hl => simpa [leave, without] using Step.succeed c i x hm hl
      next r hl => simpa [leave, without] using Step.fail c i r hm hl
      next => simpa using Step.idle (h := h) (.resume c) (by simp)
  | cancel c =>
    simp only [after, event, step, Loader.cancel]
    split
    next => simpa using Step.idle (h := h) (.cancel c) (by simp)
    next i hw => simpa [leave] using Step.giveUp c i (mem_of_lookup hw)

/-- The load that was started first, second and so on, as far as it has come. -/
abbrev load? (h : History α) (i : Nat) : Option (Load α) := h.loader.loads[i]?

/-- What a call was given agrees with the load that it joined, if it joined one. -/
def Fits (h : History α) (c : Nat) : Delivery α → Prop
  | .handle x => (∃ i, h.load? i = some (.ready x)) ∧
      ∀ i, (c, i) ∈ h.joined → h.load? i = some (.ready x)
  | .unavailable r => ∀ i, (c, i) ∈ h.joined → h.load? i = some (.failed r)
  | .cancelled => True

/-- What every history keeps. -/
structure Inv (h : History α) : Prop where
  older_failed : ∀ i, i + 1 < h.loader.loads.length → ∃ r, h.load? i = some (.failed r)
  slot_last : ∀ i, h.loader.slot = some i → i + 1 = h.loader.loads.length
  running_slot : ∀ i, h.load? i = some .running → h.loader.slot = some i
  ready_known : ∀ i x, h.load? i = some (.ready x) → h.loader.slot = some i ∨ h.loader.cached = some x
  cached_ready : ∀ x, h.loader.cached = some x →
    h.loader.slot = none ∧ ∃ i, h.load? i = some (.ready x)
  waiting_joined : ∀ p ∈ h.loader.waiting, p ∈ h.joined
  joined_called : ∀ p ∈ h.joined, p.1 < h.calls
  joined_once : ∀ c i j, (c, i) ∈ h.joined → (c, j) ∈ h.joined → i = j
  given_called : ∀ c d, (c, d) ∈ h.given → c < h.calls
  given_fits : ∀ c d, (c, d) ∈ h.given → h.Fits c d

/-- Loads that have ended stay as they are, and only a new call joins a load. -/
structure Grows (h h' : History α) : Prop where
  ended : ∀ i l, l ≠ .running → h.load? i = some l → h'.load? i = some l
  joined : ∀ p ∈ h'.joined, p ∈ h.joined ∨ p.1 = h.calls

theorem Fits.mono {h h' : History α} (hg : Grows h h') {c : Nat} (hc : c < h.calls)
    {d : Delivery α} (hf : h.Fits c d) : h'.Fits c d := by
  have hj : ∀ i, (c, i) ∈ h'.joined → (c, i) ∈ h.joined := fun i hi =>
    (hg.joined _ hi).resolve_right (Nat.ne_of_lt hc)
  cases d with
  | handle x =>
    obtain ⟨⟨i, hi⟩, hall⟩ := hf
    exact ⟨⟨i, hg.ended i _ (by simp) hi⟩, fun j hm => hg.ended j _ (by simp) (hall j (hj j hm))⟩
  | unavailable r => exact fun j hm => hg.ended j _ (by simp) (hf j (hj j hm))
  | cancelled => trivial

theorem grows_step {h h' : History α} {a : Act α} (hs : Step h a h') : Grows h h' := by
  cases hs with
  | kept x hx => exact ⟨fun _ _ _ hl => hl, fun _ hp => .inl hp⟩
  | join i hc hs => exact ⟨fun _ _ _ hl => hl, by simp [wait]; grind⟩
  | start hc hs =>
    refine ⟨fun i l _ hl => ?_, by simp [wait]; grind⟩
    have hlt := (List.getElem?_eq_some_iff.1 hl).1
    simpa [load?, wait, List.getElem?_append_left hlt] using hl
  | finish i outcome hr =>
    refine ⟨fun j l hne hl => ?_, fun _ hp => .inl hp⟩
    have hij : i ≠ j := by rintro rfl; simp_all
    simpa [load?, List.getElem?_set_ne hij] using hl
  | succeed c i x hw hl => exact ⟨fun _ _ _ hl => hl, fun _ hp => .inl hp⟩
  | fail c i r hw hl => exact ⟨fun _ _ _ hl => hl, fun _ hp => .inl hp⟩
  | giveUp c i hw => exact ⟨fun _ _ _ hl => hl, fun _ hp => .inl hp⟩
  | idle a ha => exact ⟨fun _ _ _ hl => hl, fun _ hp => .inl hp⟩

theorem Inv.last {h : History α} (hi : Inv h) {i : Nat} {l : Load α} (hl : h.load? i = some l)
    (hn : ∀ r, l ≠ .failed r) : i + 1 = h.loader.loads.length := by
  have hlt := (List.getElem?_eq_some_iff.1 hl).1
  by_contra hne
  obtain ⟨r, hr⟩ := hi.older_failed i (by omega)
  exact hn r (Option.some.inj (hl.symm.trans hr))

theorem Inv.ready_unique {h : History α} (hi : Inv h) {i j : Nat} {x y : α}
    (hx : h.load? i = some (.ready x)) (hy : h.load? j = some (.ready y)) : i = j ∧ x = y := by
  have h1 := hi.last hx (by simp)
  have h2 := hi.last hy (by simp)
  obtain rfl : i = j := by omega
  exact ⟨rfl, by simpa using hx.symm.trans hy⟩

theorem inv_init : Inv ({} : History α) := by
  constructor <;> simp [load?]

theorem mem_without {l : Loader α} {c : Nat} {p : Nat × Nat} (hp : p ∈ l.without c) :
    p ∈ l.waiting := (List.mem_filter.1 hp).1

/-- What is given later is judged by the loads as they are then. -/
theorem fits_snoc {h h' : History α} (hi : Inv h) (hg : Grows h h') {c' : Nat} {d' : Delivery α}
    (hgiven : h'.given = h.given ++ [(c', d')]) (hf : h'.Fits c' d') :
    ∀ c d, (c, d) ∈ h'.given → h'.Fits c d := by
  intro c d hm
  rw [hgiven, List.mem_append, List.mem_singleton] at hm
  rcases hm with hm | hm
  · exact (hi.given_fits c d hm).mono hg (hi.given_called c d hm)
  · cases hm; exact hf

theorem inv_kept {h : History α} (hi : Inv h) {x : α} (hx : h.loader.cached = some x) :
    Inv { h with calls := h.calls + 1, given := h.given ++ [(h.calls, .handle x)] } := by
  have hg := grows_step (.kept x hx)
  refine { hi with
    joined_called := fun p hp => Nat.lt_succ_of_lt (hi.joined_called p hp)
    given_called := ?_
    given_fits := fits_snoc hi hg rfl ⟨(hi.cached_ready x hx).2, fun i hm => ?_⟩ }
  · intro c d hm
    rcases List.mem_append.1 hm with hm | hm
    · exact Nat.lt_succ_of_lt (hi.given_called c d hm)
    · simp only [List.mem_singleton, Prod.mk.injEq] at hm
      simp [hm.1]
  · exact absurd (hi.joined_called _ hm) (Nat.lt_irrefl _)

theorem inv_wait {h : History α} {i : Nat} (hi : Inv h) (hc : h.loader.cached = none)
    (hs : h.loader.slot = some i) : Inv (h.wait h.loader i) where
  older_failed := hi.older_failed
  slot_last j hj := hi.slot_last j (hs.trans hj)
  running_slot j hj := hs.symm.trans (hi.running_slot j hj)
  ready_known j x hj := (hi.ready_known j x hj).imp hs.symm.trans id
  cached_ready x hx := by simp [wait, hc] at hx
  waiting_joined p hp := by
    rcases List.mem_append.1 hp with hp | hp
    · exact List.mem_append_left _ (hi.waiting_joined p hp)
    · exact List.mem_append_right _ hp
  joined_called p hp := by
    rcases List.mem_append.1 hp with hp | hp
    · exact Nat.lt_succ_of_lt (hi.joined_called p hp)
    · simp [wait, List.mem_singleton.1 hp]
  joined_once c j k hj hk := by
    have := hi.joined_once c j k
    have := hi.joined_called (c, j)
    have := hi.joined_called (c, k)
    simp only [wait, List.mem_append, List.mem_singleton, Prod.mk.injEq] at hj hk
    grind
  given_called c d hd := Nat.lt_succ_of_lt (hi.given_called c d hd)
  given_fits c d hd :=
    (hi.given_fits c d hd).mono (grows_step (.join i hc hs)) (hi.given_called c d hd)

/-- The load that a new call starts, before the call waits for it. -/
def opened (h : History α) : History α :=
  { h with loader := { h.loader with
      loads := h.loader.loads ++ [.running]
      slot := some h.loader.loads.length } }

theorem load?_opened (h : History α) (i : Nat) :
    h.opened.load? i = if i = h.loader.loads.length then some .running else h.load? i := by
  simp only [load?, opened]
  grind

theorem grows_opened (h : History α) : Grows h h.opened := by
  refine ⟨fun i l _ hl => ?_, fun p hp => .inl hp⟩
  have hlt := (List.getElem?_eq_some_iff.1 hl).1
  rwa [load?_opened, if_neg (by omega)]

theorem inv_opened {h : History α} (hi : Inv h) (hc : h.loader.cached = none)
    (hs : h.loader.slot = none) : Inv h.opened := by
  -- a running load would stand in the slot, and a ready one there or in the cache
  have hfailed : ∀ i l, h.load? i = some l → ∃ r, l = .failed r := by
    intro i l hl
    cases l with
    | running => have := hi.running_slot i hl; simp [hs] at this
    | ready x => have := hi.ready_known i x hl; simp [hs, hc] at this
    | failed r => exact ⟨r, rfl⟩
  have hopen : ∀ i l, h.opened.load? i = some l → (∀ r, l ≠ .failed r) →
      i = h.loader.loads.length ∧ l = .running := by
    intro i l hl hne
    rw [load?_opened] at hl
    split at hl
    · exact ⟨‹_›, (Option.some.inj hl).symm⟩
    · obtain ⟨r, hr⟩ := hfailed i l hl
      exact absurd hr (hne r)
  exact { hi with
    older_failed := by
      intro i hlt
      have hlt : i < h.loader.loads.length := by simpa [opened] using hlt
      obtain ⟨r, hr⟩ := hfailed i _ (List.getElem?_eq_getElem hlt)
      exact ⟨r, by rw [load?_opened, if_neg (by omega), ← hr]; exact List.getElem?_eq_getElem hlt⟩
    slot_last := by simp [opened]
    running_slot := fun i hr => by simp [opened, (hopen i _ hr (by simp)).1]
    ready_known := fun i x hr => by simpa using (hopen i _ hr (by simp)).2
    cached_ready := fun x hx => by simp [opened, hc] at hx
    given_fits := fun c d hd =>
      (hi.given_fits c d hd).mono (grows_opened h) (hi.given_called c d hd) }

theorem inv_finish {h : History α} (hi : Inv h) {i : Nat} {outcome : Load α}
    (hr : h.load? i = some .running) :
    Inv { h with loader := { h.loader with loads := h.loader.loads.set i outcome } } := by
  have hslot := hi.running_slot i hr
  have hlen := hi.slot_last i hslot
  have hset : ∀ j, j ≠ i → (h.loader.loads.set i outcome)[j]? = h.load? j := fun j hj =>
    List.getElem?_set_ne (Ne.symm hj)
  exact { hi with
    older_failed := by
      intro j hlt
      simp only [List.length_set] at hlt
      rw [load?, hset j (by omega)]
      exact hi.older_failed j hlt
    slot_last := fun j hj => by simpa using hi.slot_last j hj
    running_slot := by
      intro j hj
      by_cases hji : j = i
      · exact hji ▸ hslot
      · exact hi.running_slot j ((hset j hji).symm.trans hj)
    ready_known := by
      intro j x hj
      by_cases hji : j = i
      · exact .inl (hji ▸ hslot)
      · exact hi.ready_known j x ((hset j hji).symm.trans hj)
    cached_ready := by
      intro x hx
      have := (hi.cached_ready x hx).1
      simp [hslot] at this
    given_fits := fun c d hd => (hi.given_fits c d hd).mono
      (grows_step (.finish i outcome hr)) (hi.given_called c d hd) }

/-- A caller that leaves takes nothing along that its load has not given. -/
theorem inv_leave {h : History α} {l : Loader α} {c i : Nat} {d : Delivery α}
    (hi : Inv { h with loader := l }) (hl : l.waiting = h.loader.waiting)
    (hw : (c, i) ∈ h.loader.waiting) (hf : Fits { h with loader := l } c d) :
    Inv (h.leave l c d) := by
  have hj : (c, i) ∈ h.joined := hi.waiting_joined (c, i) (hl ▸ hw)
  exact { hi with
    waiting_joined := fun p hp => hi.waiting_joined p (hl ▸ mem_without hp)
    given_called := by
      intro c' d' hm
      rcases List.mem_append.1 hm with hm | hm
      · exact hi.given_called c' d' hm
      · simp only [List.mem_singleton, Prod.mk.injEq] at hm
        exact hm.1 ▸ hi.joined_called _ hj
    given_fits := fits_snoc (h := { h with loader := l }) hi
      ⟨fun _ _ _ hx => hx, fun _ hp => .inl hp⟩ rfl (by cases d <;> exact hf) }

/-- The success path empties the slot without a look at it: it can only hold the same load. -/
theorem inv_succeed {h : History α} (hi : Inv h) {i : Nat} {x : α}
    (hx : h.load? i = some (.ready x)) :
    Inv { h with loader := { h.loader with cached := some x, slot := none } } :=
  { hi with
    slot_last := by simp
    running_slot := by
      intro j hj
      have h1 := hi.last hx (by simp)
      have h2 := hi.last hj (by simp)
      obtain rfl : i = j := by omega
      simp_all
    ready_known := fun j y hy => .inr (congrArg some (hi.ready_unique hx hy).2)
    cached_ready := fun y hy => ⟨rfl, i, by rw [← Option.some.inj hy]; exact hx⟩ }

theorem inv_fail {h : History α} (hi : Inv h) {i : Nat} {r : String}
    (hr : h.load? i = some (.failed r)) :
    Inv { h with loader := { h.loader with
      slot := if h.loader.slot = some i then none else h.loader.slot } } := by
  have hkeep : ∀ j, h.loader.slot = some j → h.load? j ≠ some (.failed r) →
      (if h.loader.slot = some i then none else h.loader.slot) = some j := by
    intro j hj hne
    rw [if_neg (by rintro hs; simp_all), hj]
  exact { hi with
    slot_last := by
      intro j hj
      dsimp only at hj
      split at hj
      · cases hj
      · exact hi.slot_last j hj
    running_slot := fun j hj => hkeep j (hi.running_slot j hj) (by simp [hj])
    ready_known := fun j x hj => (hi.ready_known j x hj).imp (hkeep j · (by simp [hj])) id
    cached_ready := fun x hx => ⟨by simp [(hi.cached_ready x hx).1], (hi.cached_ready x hx).2⟩ }

theorem inv_step {h h' : History α} {a : Act α} (hi : Inv h) (hs : Step h a h') : Inv h' := by
  cases hs with
  | kept x hx => exact inv_kept hi hx
  | join i hc hs => exact inv_wait hi hc hs
  | start hc hs => exact inv_wait (inv_opened hi hc hs) hc rfl
  | finish i outcome hr => exact inv_finish hi hr
  | succeed c i x hw hx =>
    refine inv_leave (inv_succeed hi hx) rfl hw ⟨⟨i, hx⟩, fun j hj => ?_⟩
    rwa [hi.joined_once c j i hj (hi.waiting_joined _ hw)]
  | fail c i r hw hr =>
    refine inv_leave (inv_fail hi hr) rfl hw fun j hj => ?_
    rwa [hi.joined_once c j i hj (hi.waiting_joined _ hw)]
  | giveUp c i hw => exact inv_leave hi rfl hw trivial
  | idle a ha => exact hi

theorem inv_foldl {h : History α} (hi : Inv h) (as : List (Act α)) : Inv (as.foldl after h) := by
  induction as generalizing h with
  | nil => exact hi
  | cons a as ih => exact ih (inv_step hi (step_after h a))

theorem inv_of (as : List (Act α)) : Inv (of as) := inv_foldl inv_init as

/-- A handle is kept for ever: what else could be put in its place comes from the same load. -/
theorem cached_step {h h' : History α} {a : Act α} (hi : Inv h) (hs : Step h a h') {x : α}
    (hx : h.loader.cached = some x) : h'.loader.cached = some x := by
  cases hs with
  | kept y hy => exact hx
  | join i hc hs => exact hx
  | start hc hs => exact hx
  | finish i outcome hr => exact hx
  | succeed c i y hw hy =>
    obtain ⟨-, j, hj⟩ := hi.cached_ready x hx
    exact congrArg some (hi.ready_unique hy hj).2
  | fail c i r hw hr => exact hx
  | giveUp c i hw => exact hx
  | idle a ha => exact hx

theorem running_keeps_slot {h h' : History α} {a : Act α} (hi : Inv h) (hs : Step h a h') {i : Nat}
    (hr : h.load? i = some .running) : h'.loader.slot = some i := by
  have hslot := hi.running_slot i hr
  cases hs with
  | kept y hy => exact hslot
  | join j hc hj => exact hj.symm.trans hslot
  | start hc hs => simp [hslot] at hs
  | finish j outcome hj => exact hslot
  | succeed c j y hw hy =>
    have h1 := hi.last hr (by simp)
    have h2 := hi.last hy (by simp)
    obtain rfl : i = j := by omega
    simp_all
  | fail c j r hw hj =>
    have hne : i ≠ j := by rintro rfl; simp_all
    simp [leave, hslot, hne]
  | giveUp c j hw => exact hslot
  | idle a ha => exact hslot

theorem given_step {h h' : History α} {a : Act α} (hs : Step h a h') {c : Nat}
    (hm : (c, .cancelled) ∈ h'.given) : (c, .cancelled) ∈ h.given ∨ a = .cancel c := by
  cases hs <;> simp_all [wait, leave, eq_comm]

end History

end Solwright.Loader
