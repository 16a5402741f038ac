import Solwright.Proofs.Session.Engine

/-! What compiling comes to, and what it leaves for the next job: the settings and the catalogue as
they were, a loader that is free again, and the runs still to come. -/

namespace Solwright

/-- Why a path cannot be looked for. -/
def Fault.IsBadPath (f : Fault) : Prop :=
  f = .badValue "embedded null byte" ∨ f = .badValue "surrogates not allowed" ∨ f = .pathTooLong

theorem Catalog.badPath?_cases {path : RawText} {reason : String} (h : badPath? path = some reason) :
    reason = "embedded null byte" ∨ reason = "surrogates not allowed" := by
  unfold badPath? at h
  split at h <;> split_ifs at h <;> cases h
  · exact .inl rfl
  · exact .inr rfl
  · exact .inl rfl

/-- A text is no path, or a path is too long. -/
theorem Catalog.file_error {c : Catalog} {path : RawText} {f : Fault} (h : c.file path = .error f) : f.IsBadPath := by
  unfold file at h
  split at h
  next => cases h
  next reason _ hbad =>
    cases h
    rcases badPath?_cases hbad with rfl | rfl
    · exact .inl rfl
    · exact .inr (.inl rfl)
  next root _ _ =>
    cases hbelow : c.fileBelow root (pathChars path) with
    | ok found =>
      rw [hbelow] at h
      cases h
    | error f' =>
      rw [hbelow] at h
      cases h
      unfold fileBelow at hbelow
      dsimp only at hbelow
      split_ifs at hbelow with hinside
      unfold fileAt at hbelow
      split_ifs at hbelow
      cases hbelow
      exact .inr (.inr rfl)

theorem Catalog.imported_error {c : Catalog} {units : List (RawText × RawText)} {f : Fault}
    (h : c.imported units = .error f) : f.IsBadPath := by
  unfold imported at h
  split at h
  next f' hfault =>
    cases h
    obtain ⟨path, -, hpath⟩ := List.exists_of_findSome?_eq_some hfault
    unfold fault? at hpath
    split at hpath
    · cases hpath
    next f' hfind =>
      cases hpath
      unfold find at hfind
      split_ifs at hfind
      split at hfind
      · cases hfind
      · cases hfile : c.file path with
        | ok found =>
          rw [hfile] at hfind
          cases hfind
        | error f' =>
          rw [hfile] at hfind
          cases hfind
          exact file_error hfile
  · cases h

namespace Session

variable {α : Type} {s : Session} {source name : RawText}

theorem run_tryCatch (x : Job α) (handle : Fault → Job α) (s : Session) :
    (tryCatch x handle).run s = match x.run s with
      | (.ok a, s') => (.ok a, s')
      | (.error f, s') => (handle f).run s' := by
  change ExceptT.tryCatch x handle s = _
  unfold ExceptT.tryCatch
  rcases h : x.run s with ⟨f | a, s'⟩ <;> rw [ExceptT.run] at h
  · simp only [ExceptT.mk, bind, StateT.bind, h]
    rfl
  · simp only [ExceptT.mk, bind, StateT.bind, h]
    rfl

/-- What is left of the outcomes to come after some of them. -/
def Follows {β : Type} (later earlier : Series β) : Prop := ∃ n, ∀ k, later k = earlier (n + k)

theorem Follows.refl {β : Type} (xs : Series β) : Follows xs xs := ⟨0, fun k => by rw [Nat.zero_add]⟩

theorem Follows.rest {β : Type} (xs : Series β) : Follows xs.rest xs :=
  ⟨1, fun k => by rw [Nat.add_comm, Series.rest]⟩

theorem Follows.trans {β : Type} {xs ys zs : Series β} (h : Follows ys xs) (h' : Follows zs ys) :
    Follows zs xs := by
  obtain ⟨m, hm⟩ := h
  obtain ⟨n, hn⟩ := h'
  exact ⟨m + n, fun k => by rw [hn, hm, Nat.add_assoc]⟩

structure Leaves (s s' : Session) : Prop where
  free : s'.loader.Free
  settings : s'.settings = s.settings
  catalog : s'.catalog = s.catalog
  limits : s'.outside.limits = s.outside.limits
  runs : Follows s'.outside.runs s.outside.runs

theorem Leaves.refl (h : s.loader.Free) : Leaves s s := ⟨h, rfl, rfl, rfl, .refl _⟩

theorem Leaves.trans {s₁ s₂ s₃ : Session} (h : Leaves s₁ s₂) (h' : Leaves s₂ s₃) : Leaves s₁ s₃ :=
  ⟨h'.free, h'.settings.trans h.settings, h'.catalog.trans h.catalog, h'.limits.trans h.limits,
    h.runs.trans h'.runs⟩

theorem leaves_engine (h : s.loader.Free) : Leaves s (engine.run s).2 :=
  let asked := asked_engine h
  let quiet := quiet_engine s
  ⟨asked.free, quiet.settings, quiet.catalog, quiet.limits, asked.runs ▸ .refl _⟩

/-- The run that comes next. -/
def upcoming (s : Session) : Arrival Run :=
  s.outside.runs.next

theorem submit_spec (h : s.loader.Free) (d : Document) (timeout : Option Number.Binary64) :
    ((submit d timeout).run s).1 = (s.upcoming.within timeout).bind documentOf ∧
      Leaves s ((submit d timeout).run s).2 :=
  ⟨rfl, h, rfl, rfl, rfl, .rest _⟩

/-- The run that comes next comes after the limit of time. -/
def isLate (s : Session) : Bool :=
  s.upcoming.late && s.settings.compileTimeout.isSome

theorem within_upcoming (s : Session) : s.upcoming.within s.settings.compileTimeout =
    if s.isLate then .error .timedOut else .ok s.upcoming.outcome := rfl

/-- What the compiler makes of a source, once it is there. -/
def verdict (s : Session) (source name : RawText) : Except Fault Artifact :=
  if isOver s.settings.compileTimeout then .error .timedOut else
  (s.catalog.imported [(sourceName name, source)]).bind fun _ =>
  (s.upcoming.within s.settings.compileTimeout).bind fun run =>
  (documentOf run).bind fun document =>
  (Output.readJson document (sourceName name) name s.settings.strictMatch source.shown).1

/-- What compiling comes to: the verdict, or that there is no compiler. -/
structure Compiled (s : Session) (source name : RawText) (p : Except Fault Artifact × Session) :
    Prop where
  outcome : s.Loads ∧ p.1 = s.verdict source name ∨
    ¬s.Loads ∧ ∃ reason : String, p.1 = .error (.failure (.engineUnavailable reason))
  leaves : Leaves s p.2

theorem compiled_compile (h : s.loader.Free) (source name : RawText) :
    Compiled s source name ((compile source name { timeout := none }).run s) := by
  have hleaves := leaves_engine h
  have hasked := asked_engine h
  unfold compile
  rw [run_bind]
  rcases hengine : engine.run s with ⟨f | e, s₁⟩ <;> rw [hengine] at hleaves hasked <;>
    obtain ⟨houtcome, -, hruns⟩ := hasked <;> dsimp only at hleaves hruns ⊢
  · rcases houtcome with ⟨-, e, he⟩ | ⟨hnone, reason, hreason⟩
    · cases he
    · cases hreason
      exact ⟨.inr ⟨hnone, reason, rfl⟩, hleaves⟩
  have hloads : s.Loads := by
    rcases houtcome with ⟨hloads, -⟩ | ⟨-, reason, hreason⟩
    · exact hloads
    · cases hreason
  -- the session that the compiler leaves gives the same verdict, as no run has been taken from it
  suffices hspec : _ = s.verdict source name ∧ Leaves s₁ _ from
    ⟨.inl ⟨hloads, hspec.1⟩, hleaves.trans hspec.2⟩
  have hupcoming : s₁.upcoming = s.upcoming := by rw [upcoming, upcoming, hruns]
  rw [run_get_bind, hleaves.settings, hleaves.catalog, verdict, ofSource_units, Option.none_or]
  by_cases hover : isOver s.settings.compileTimeout = true
  · rw [if_pos hover, if_pos hover, run_throw_bind]
    exact ⟨rfl, .refl hleaves.free⟩
  rw [if_neg hover, if_neg hover]
  cases s.catalog.imported [(sourceName name, source)] with
  | error f => exact ⟨rfl, .refl hleaves.free⟩
  | ok found =>
    rw [run_ok_bind, run_bind, ← hupcoming]
    generalize ({ Document.ofSource name source _ _ _ with units := _ } : Document) = d
    obtain ⟨hdocument, hleaves⟩ := submit_spec hleaves.free d s.settings.compileTimeout
    generalize (submit d s.settings.compileTimeout).run s₁ = p at hdocument hleaves
    obtain ⟨output, s₂⟩ := p
    dsimp only at hdocument
    subst hdocument
    dsimp only [Except.bind]
    cases s₁.upcoming.within s.settings.compileTimeout with
    | error f => exact ⟨rfl, hleaves⟩
    | ok run =>
      dsimp only
      cases documentOf run with
      | error f => exact ⟨rfl, hleaves⟩
      | ok document =>
        exact ⟨rfl, hleaves.free, hleaves.settings, hleaves.catalog, hleaves.limits, hleaves.runs⟩

/-- The faults, failures apart, that a compilation ends in although the compiler is there. -/
inductive Halts (s : Session) (source name : RawText) : Fault → Prop
  | elapsed : isOver s.settings.compileTimeout = true → Halts s source name .timedOut
  | lost {f : Fault} : isOver s.settings.compileTimeout = false →
      s.catalog.imported [(sourceName name, source)] = .error f → Halts s source name f
  | late {found : List (RawText × RawText)} : isOver s.settings.compileTimeout = false →
      s.catalog.imported [(sourceName name, source)] = .ok found → s.isLate = true →
      Halts s source name .timedOut
  | unread {found : List (RawText × RawText)} {f : Fault} :
      isOver s.settings.compileTimeout = false →
      s.catalog.imported [(sourceName name, source)] = .ok found → s.isLate = false →
      ((documentOf s.upcoming.outcome).bind fun document =>
        (Output.readJson document (sourceName name) name s.settings.strictMatch source.shown).1) = .error f →
      (∀ e, f ≠ .failure e) → Halts s source name f

theorem verdict_error_iff {f : Fault} (hf : ∀ e, f ≠ .failure e) :
    s.verdict source name = .error f ↔ s.Halts source name f := by
  unfold verdict
  rw [within_upcoming]
  cases hover : isOver s.settings.compileTimeout with
  | true =>
    rw [if_pos rfl]
    refine ⟨fun h => ?_, fun h => ?_⟩
    · cases h
      exact .elapsed hover
    · cases h with
      | elapsed | late => rfl
      | lost hnot | unread hnot => rw [hover] at hnot; cases hnot
  | false =>
    rw [if_neg (by decide)]
    cases himported : s.catalog.imported [(sourceName name, source)] with
    | error f' =>
      refine ⟨fun h => ?_, fun h => ?_⟩
      · cases h
        exact .lost hover himported
      · cases h with
        | elapsed hnot => rw [hover] at hnot; cases hnot
        | lost _ hlost => rw [himported] at hlost; cases hlost; rfl
        | late _ hfound | unread _ hfound => rw [himported] at hfound; cases hfound
    | ok found =>
      cases hlate : s.isLate with
      | true =>
        refine ⟨fun h => ?_, fun h => ?_⟩
        · cases h
          exact .late hover himported hlate
        · cases h with
          | elapsed | late => rfl
          | lost _ hlost => rw [himported] at hlost; cases hlost
          | unread _ _ hnot => rw [hlate] at hnot; cases hnot
      | false =>
        refine ⟨fun h => .unread hover himported hlate h hf, fun h => ?_⟩
        cases h with
        | elapsed hnot => rw [hover] at hnot; cases hnot
        | lost _ hlost => rw [himported] at hlost; cases hlost
        | late _ _ hnot => rw [hlate] at hnot; cases hnot
        | unread _ _ _ hread => exact hread

end Session

end Solwright
