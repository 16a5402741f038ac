import Solwright.Proofs.Composition.Accepted
import Solwright.Proofs.Session.Compiling

/-! What pieces of work come to: which values, which faults besides failures, and which session. -/

namespace Solwright.Session

variable {α β : Type} {s : Session}

/-- What a piece of work comes to: its values, its faults apart from failures, and what it leaves. -/
structure Comes (s : Session) (x : Job α) (P : α → Prop) (W : Fault → Prop) : Prop where
  value : ∀ a, (x.run s).1 = .ok a ↔ P a
  fault : ∀ f, (∀ e, f ≠ .failure e) → ((x.run s).1 = .error f ↔ W f)
  leaves : Leaves s (x.run s).2

theorem Comes.of_run {P : α → Prop} {W : Fault → Prop} {x y : Job α} (hx : Comes s x P W)
    (h : y.run s = x.run s) : Comes s y P W :=
  ⟨h ▸ hx.value, h ▸ hx.fault, h ▸ hx.leaves⟩

/-- The limits are the same before and after a piece of work. -/
theorem Leaves.run_bind_get {x : Job α} (hx : Leaves s (x.run s).2) (k : Limits → α → Except Fault β) :
    (x >>= fun a => (get : Job Session) >>= fun s' => Job.ofExcept (k s'.outside.limits a)).run s =
      (x >>= fun a => Job.ofExcept (k s.outside.limits a)).run s := by
  rw [run_bind, run_bind]
  revert hx
  rcases x.run s with ⟨f | a, s'⟩
  · exact fun _ => rfl
  · intro hx
    dsimp only
    rw [run_get_bind, hx.limits]

theorem Comes.andThen {P : α → Prop} {W : Fault → Prop} {x : Job α} (hx : Comes s x P W)
    (k : α → Except Fault β) :
    Comes s (x >>= fun a => Job.ofExcept (k a)) (fun b => ∃ a, P a ∧ k a = .ok b)
      fun f => W f ∨ ∃ a, P a ∧ k a = .error f := by
  obtain ⟨hvalue, hfault, hleaves⟩ := hx
  have hrun := run_bind x (fun a => Job.ofExcept (k a)) s
  rcases hs : x.run s with ⟨f | a, s'⟩ <;> rw [hs] at hvalue hfault hleaves hrun
  · refine ⟨fun b => ?_, fun f' hf' => ?_, ?_⟩ <;> rw [hrun]
    · refine ⟨nofun, ?_⟩
      rintro ⟨a, ha, -⟩
      cases (hvalue a).2 ha
    · refine ⟨?_, ?_⟩
      · rintro ⟨⟩
        exact .inl ((hfault f hf').1 rfl)
      · rintro (h | ⟨a, ha, -⟩)
        · cases (hfault f' hf').2 h
          rfl
        · cases (hvalue a).2 ha
    · exact hleaves
  · have ha : P a := (hvalue a).1 rfl
    have honly : ∀ a', P a' → a' = a := by
      intro a' ha'
      cases (hvalue a').2 ha'
      rfl
    refine ⟨fun b => ?_, fun f' hf' => ?_, ?_⟩ <;> rw [hrun]
    · refine ⟨fun h => ⟨a, ha, h⟩, ?_⟩
      rintro ⟨a', ha', h⟩
      rw [honly a' ha'] at h
      exact h
    · refine ⟨fun h => .inr ⟨a, ha, h⟩, ?_⟩
      rintro (h | ⟨a', ha', h⟩)
      · cases (hfault f' hf').2 h
      · rw [honly a' ha'] at h
        exact h
    · exact hleaves

theorem Comes.ofExcept_bind (hfree : s.loader.Free) {e : Except Fault β} {k : β → Job α}
    {P : β → α → Prop} {W : β → Fault → Prop} (hk : ∀ b, e = .ok b → Comes s (k b) (P b) (W b)) :
    Comes s (Job.ofExcept e >>= k) (fun a => ∃ b, e = .ok b ∧ P b a)
      fun f => e = .error f ∨ ∃ b, e = .ok b ∧ W b f := by
  cases e with
  | error f =>
    refine ⟨fun a => ⟨nofun, ?_⟩, fun f' _ => ⟨?_, ?_⟩, .refl hfree⟩
    · rintro ⟨b, ⟨⟩, -⟩
    · rintro ⟨⟩
      exact .inl rfl
    · rintro (⟨⟨⟩⟩ | ⟨b, ⟨⟩, -⟩)
      rfl
  | ok b =>
    obtain ⟨hvalue, hfault, hleaves⟩ := hk b rfl
    refine ⟨fun a => (hvalue a).trans ⟨fun h => ⟨b, rfl, h⟩, ?_⟩,
      fun f hf => (hfault f hf).trans ⟨fun h => .inr ⟨b, rfl, h⟩, ?_⟩, hleaves⟩
    · rintro ⟨b', ⟨⟩, h⟩
      exact h
    · rintro (⟨⟨⟩⟩ | ⟨b', ⟨⟩, h⟩)
      exact h

theorem ofExcept_bind_pure (e : Except Fault α) (g : α → β) :
    (Job.ofExcept e >>= fun a => pure (g a)) = Job.ofExcept (e.map g) := by
  cases e <;> rfl

theorem comes_compile (h : s.loader.Free) (source name : RawText) :
    Comes s (compile source name { timeout := none })
      (fun a => s.Loads ∧ s.verdict source name = .ok a)
      fun f => s.Loads ∧ s.verdict source name = .error f := by
  obtain ⟨houtcome, hleaves⟩ := compiled_compile h source name
  rcases houtcome with ⟨hloads, houtcome⟩ | ⟨hnone, reason, houtcome⟩
  · refine ⟨fun a => ?_, fun f _ => ?_, hleaves⟩ <;> rw [houtcome] <;>
      exact ⟨fun h => ⟨hloads, h⟩, fun h => h.2⟩
  · refine ⟨fun a => ?_, fun f hf => ?_, hleaves⟩ <;> rw [houtcome]
    · exact ⟨nofun, fun h => absurd h.1 hnone⟩
    · refine ⟨?_, fun h => absurd h.1 hnone⟩
      rintro ⟨⟩
      exact absurd rfl (hf _)

theorem comes_compileChecked (h : s.loader.Free) (source name : RawText) :
    Comes s (compileChecked source name none)
      (fun a => Source.problems source.shown = [] ∧ s.Loads ∧ s.verdict source name = .ok a)
      fun f => Source.problems source.shown = [] ∧ s.Loads ∧ s.verdict source name = .error f := by
  unfold compileChecked
  cases hproblems : Source.problems source.shown with
  | nil =>
    obtain ⟨hvalue, hfault, hleaves⟩ := comes_compile h source name
    exact ⟨fun a => (hvalue a).trans ⟨fun h => ⟨rfl, h⟩, fun h => h.2⟩,
      fun f hf => (hfault f hf).trans ⟨fun h => ⟨rfl, h⟩, fun h => h.2⟩, hleaves⟩
  | cons p ps =>
    refine ⟨fun a => ⟨nofun, fun h => nomatch h.1⟩, fun f hf => ⟨?_, fun h => nomatch h.1⟩, .refl h⟩
    rintro ⟨⟩
    exact absurd rfl (hf _)

/-- The contract of a request is always generated; only the log grows. -/
theorem generate_run (r : Request) (s : Session) :
    ∃ journal, (Session.generate r).run s = (.ok r.compose, { s with journal := journal }) :=
  ⟨_, run_generate r s⟩

theorem comes_build (h : s.loader.Free) (r : Request) :
    Comes s (build r none)
      (fun a => s.Loads ∧ s.verdict r.compose.source r.contractName.text = .ok a)
      fun f => s.Loads ∧ s.verdict r.compose.source r.contractName.text = .error f := by
  obtain ⟨journal, hjournal⟩ := generate_run r s
  obtain ⟨hvalue, hfault, hleaves⟩ := comes_compile (s := { s with journal := journal }) h
    r.compose.source r.contractName.text
  have hrun : (build r none).run s = (compile r.compose.source r.contractName.text
      { timeout := none }).run { s with journal := journal } := by
    unfold build
    rw [run_bind, hjournal]
  refine ⟨?_, ?_, ?_⟩ <;> rw [hrun]
  · exact hvalue
  · exact hfault
  · exact ⟨hleaves.free, hleaves.settings, hleaves.catalog, hleaves.limits, hleaves.runs⟩

end Solwright.Session
