import Mathlib.Tactic.SplitIfs
import Solwright.Proofs.Session.Documents

/-! Asking for the compiler. A job asks as caller zero and lets the load it waits for end, so it is
given the compiler or is told that there is none, and leaves the loader free for the next job. -/

namespace Solwright

variable {α : Type}

namespace Loader

/-- Caller zero waits for nothing, and the load in the slot has been started. -/
structure Free (l : Loader α) : Prop where
  caller : l.waiting.lookup 0 = none
  slot : ∀ i, l.slot = some i → i < l.loads.length

/-- Caller zero waits for the load in the slot. -/
structure Awaits (l : Loader α) (i : Nat) : Prop where
  caller : l.waiting.lookup 0 = some i
  slot : l.slot = some i
  started : i < l.loads.length

/-- The load in the slot, running or ended. -/
def current? (l : Loader α) : Option (Load α) :=
  l.slot.bind (l.loads[·]?)

/-- What a load comes to that ends, if it has not ended yet, with an outcome. -/
def endingWith (o : Load α) : Option (Load α) → Load α
  | none | some .running => o
  | some ended => ended

theorem endingWith_ended {o : Load α} (ho : o ≠ .running) (current : Option (Load α)) :
    endingWith o current ≠ .running := by
  rcases current with _ | _ | e | reason
  · exact ho
  · exact ho
  · nofun
  · nofun

theorem lookup_append_of_none {w : List (Nat × Nat)} (h : w.lookup 0 = none) (i : Nat) :
    (w ++ [(0, i)]).lookup 0 = some i := by
  simp [List.lookup_append, h]

theorem lookup_without (l : Loader α) (c : Nat) : (l.without c).lookup c = none := by
  rw [List.lookup_eq_none_iff]
  intro p hp
  have hne : p.1 ≠ c := by simpa using (List.mem_filter.1 hp).2
  simpa using hne.symm

/-- A caller that is not given the compiler at once waits, and a load is started for it if need be. -/
theorem Free.enter {l : Loader α} (h : l.Free) (hnone : l.cached = none) :
    (l.enter 0).2 = none ∧ ∃ i, (l.enter 0).1.Awaits i ∧
      ∀ o, endingWith o (l.enter 0).1.current? = endingWith o l.current? := by
  unfold Loader.enter
  rw [hnone]
  cases hslot : l.slot with
  | none =>
    refine ⟨rfl, l.loads.length, ⟨lookup_append_of_none h.caller _, rfl, by simp⟩, fun o => ?_⟩
    simp [current?, hslot, endingWith]
  | some i =>
    refine ⟨rfl, i, ⟨lookup_append_of_none h.caller i, rfl, h.slot i hslot⟩, fun o => ?_⟩
    simp [current?, hslot]

theorem Awaits.running? {l : Loader α} {i : Nat} (h : l.Awaits i) :
    l.running? = some i ∧ l.current? = some .running ∨
      l.running? = none ∧ ∀ o, l.current? = some (endingWith o l.current?) := by
  unfold Loader.running? current?
  rw [h.slot, Option.bind_some, Option.filter_some]
  obtain ⟨o, ho⟩ : ∃ o, l.loads[i]? = some o := ⟨_, List.getElem?_eq_getElem h.started⟩
  rw [ho]
  cases o with
  | running => exact .inl ⟨rfl, rfl⟩
  | ready e => exact .inr ⟨rfl, fun _ => rfl⟩
  | failed reason => exact .inr ⟨rfl, fun _ => rfl⟩

theorem Awaits.finish {l : Loader α} {i : Nat} (h : l.Awaits i) (hi : l.current? = some .running)
    (o : Load α) : (l.finish i o).Awaits i ∧ (l.finish i o).current? = some o := by
  rw [current?, h.slot, Option.bind_some] at hi
  unfold Loader.finish current?
  rw [hi]
  dsimp only
  rw [h.slot, Option.bind_some]
  exact ⟨⟨h.caller, rfl, by simpa using h.started⟩, by simp [h.started]⟩

theorem Awaits.resume {l : Loader α} {i : Nat} (h : l.Awaits i) {o : Load α}
    (ho : l.current? = some o) (hended : o ≠ .running) :
    (l.resume 0).1.Free ∧ ((∃ e, o = .ready e ∧ (l.resume 0).2 = some (.handle e)) ∨
      ∃ reason, o = .failed reason ∧ (l.resume 0).2 = some (.unavailable reason)) := by
  rw [current?, h.slot, Option.bind_some] at ho
  unfold Loader.resume
  rw [h.caller]
  dsimp only
  rw [ho]
  cases o with
  | running => exact absurd rfl hended
  | ready e => exact ⟨⟨l.lookup_without 0, nofun⟩, .inl ⟨e, rfl, rfl⟩⟩
  | failed reason =>
    refine ⟨⟨l.lookup_without 0, ?_⟩, .inr ⟨reason, rfl, rfl⟩⟩
    dsimp only
    rw [if_pos h.slot]
    nofun

end Loader

namespace Session

open Loader

variable {s : Session}

theorem at_get_bind {P : α × Session → Prop} {k : Session → StateM Session α} (h : P (k s s)) :
    P ((get >>= k) s) := h

theorem at_modifyGet_bind {β : Type} {P : α × Session → Prop} {f : Session → β × Session}
    {k : β → StateM Session α} (h : P (k (f s).1 (f s).2)) : P ((modifyGet f >>= k) s) := h

theorem at_enter_bind {P : α × Session → Prop}
    {k : Option (Delivery Engine) → StateM Session α}
    (h : P (k (s.loader.enter 0).2 { s with loader := (s.loader.enter 0).1 })) :
    P ((enter 0 >>= k) s) := h

theorem at_install_bind {version : RawText} {P : α × Session → Prop} {k : Installation → StateM Session α}
    (h : P (k s.outside.installations.next (install version s).2)) : P ((install version >>= k) s) := h

/-- What the next load comes to. -/
def nextLoad (s : Session) : Load Engine :=
  let version := s.settings.compilerVersion
  if s.outside.installed.contains version then .ready (s.engineOf version) else
  match s.outside.installations.next with
  | .failed reason => .failed reason
  | .done => .ready (s.engineOf version)

/-- The load that whoever asks for the compiler waits for, as it ends. -/
def awaited (s : Session) : Load Engine :=
  endingWith s.nextLoad s.loader.current?

/-- The compiler is loaded, or the load that is waited for ends with it. -/
def Loads (s : Session) : Prop := s.loader.cached.isSome = true ∨ ∃ e, s.awaited = .ready e

theorem nextLoad_ended (s : Session) : s.nextLoad ≠ .running := by
  rw [nextLoad]
  split_ifs
  · nofun
  · split <;> nofun

/-- A load changes neither the loader nor the runs. -/
structure Loaded (s : Session) (p : Load Engine × Session) : Prop where
  outcome : p.1 = s.nextLoad
  loader : p.2.loader = s.loader
  runs : p.2.outside.runs = s.outside.runs

theorem loaded_load (s : Session) : Loaded s (load s.settings.compilerVersion s) := by
  unfold load
  refine at_get_bind ?_
  by_cases h : s.outside.installed.contains s.settings.compilerVersion = true
  · rw [if_pos h]
    exact ⟨by rw [nextLoad, if_pos h]; rfl, rfl, rfl⟩
  · rw [if_neg h]
    refine at_install_bind ?_
    cases hi : s.outside.installations.next <;> exact ⟨by rw [nextLoad, if_neg h, hi]; rfl, rfl, rfl⟩

/-- The load that caller zero waits for has ended. -/
structure Ended (s : Session) (i : Nat) (p : Unit × Session) : Prop where
  awaits : p.2.loader.Awaits i
  outcome : p.2.loader.current? = some s.awaited
  runs : p.2.outside.runs = s.outside.runs

theorem ended_endLoad {i : Nat} (h : s.loader.Awaits i) : Ended s i (endLoad s) := by
  unfold endLoad
  refine at_get_bind ?_
  rcases h.running? with ⟨hrun, hi⟩ | ⟨hrun, hended⟩ <;> rw [hrun]
  · obtain ⟨houtcome, hloader, hruns⟩ := loaded_load s
    have hawaited : s.awaited = (load s.settings.compilerVersion s).1 := by
      rw [awaited, hi, endingWith, houtcome]
    rw [← hloader] at h hi
    obtain ⟨hawaits, ho⟩ := h.finish hi (load s.settings.compilerVersion s).1
    exact ⟨hawaits, hawaited ▸ ho, hruns⟩
  · exact ⟨h, hended _, rfl⟩

theorem resume_spec (s : Session) : (resume 0 s).1 = (s.loader.resume 0).2 ∧
    (resume 0 s).2.loader = (s.loader.resume 0).1 ∧
      (resume 0 s).2.outside.runs = s.outside.runs := by
  unfold resume
  refine at_modifyGet_bind (P := fun p => p.1 = (s.loader.resume 0).2 ∧
    p.2.loader = (s.loader.resume 0).1 ∧ p.2.outside.runs = s.outside.runs) ?_
  rcases s.loader.resume 0 with ⟨l, _ | _ | reason | _⟩ <;> exact ⟨rfl, rfl, rfl⟩

/-- What asking for the compiler comes to: the compiler, or that there is none. -/
structure Asked (s : Session) (p : Except Fault Engine × Session) : Prop where
  outcome : s.Loads ∧ (∃ e, p.1 = .ok e) ∨
    ¬s.Loads ∧ ∃ reason : String, p.1 = .error (.failure (.engineUnavailable reason))
  free : p.2.loader.Free
  runs : p.2.outside.runs = s.outside.runs

theorem asked_engine (h : s.loader.Free) : Asked s (engine.run s) := by
  unfold engine
  refine at_enter_bind ?_
  cases hc : s.loader.cached with
  | some e =>
    have henter : s.loader.enter 0 = (s.loader, some (.handle e)) := by
      rw [Loader.enter, hc]
    rw [henter]
    exact ⟨.inl ⟨.inl (by rw [hc]; rfl), e, rfl⟩, h, rfl⟩
  | none =>
    have hloads : s.Loads ↔ ∃ e, s.awaited = .ready e := by simp [Loads, hc]
    -- caller zero waits from here on: the load ends, and then the caller learns how
    obtain ⟨hnone, i, hawaits, hcurrent⟩ := h.enter hc
    rw [hnone]
    generalize hs : ({ s with loader := (s.loader.enter 0).1 } : Session) = s₁
    have hawaited : s₁.awaited = s.awaited := by
      rw [← hs]
      exact hcurrent _
    have hruns : s₁.outside.runs = s.outside.runs := by rw [← hs]
    obtain ⟨hawaits, ho, hload⟩ := ended_endLoad (s := s₁) (i := i) (by rw [← hs]; exact hawaits)
    obtain ⟨hgiven, hloader, hresume⟩ := resume_spec (endLoad s₁).2
    obtain ⟨hfree, houtcome⟩ := hawaits.resume ho (endingWith_ended s₁.nextLoad_ended _)
    rw [← hgiven, hawaited] at houtcome
    refine ⟨?_, hloader ▸ hfree, hresume.trans (hload.trans hruns)⟩
    change _ ∧ (∃ e, delivered (resume 0 (endLoad s₁).2).1 = .ok e) ∨
      _ ∧ ∃ reason : String, delivered (resume 0 (endLoad s₁).2).1 = .error (.failure (.engineUnavailable reason))
    rw [hloads]
    rcases houtcome with ⟨e, he, hd⟩ | ⟨reason, he, hd⟩ <;> rw [hd, he]
    · exact .inl ⟨⟨e, rfl⟩, e, rfl⟩
    · exact .inr ⟨nofun, _, rfl⟩

end Session

end Solwright
