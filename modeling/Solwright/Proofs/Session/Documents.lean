import Solwright.Compilation

/-! The documents that a compiler is given. Only the last steps of a compilation hand one over, and it
is made of the settings and the catalogue that the session had before. -/

namespace Solwright

/-- An outside with one compiler, every run of which puts out the same document in time, and a model
that says nothing. -/
def Outside.steady (version : String) (document : Json) : Outside where
  installed := [version]
  program := RawText.shown
  installations _ := .done
  runs _ := ⟨.output document, false⟩
  client := Client.mk
  replies _ := ⟨.text none, false⟩
  versions := .ok [version]
  limits := ⟨1000, 1000, 4096⟩

namespace Session

variable {α β : Type}

theorem run_bind {σ ε : Type} (x : ExceptT ε (StateM σ) α) (f : α → ExceptT ε (StateM σ) β) (s : σ) :
    (x >>= f).run s = match x.run s with
      | (.ok a, s') => (f a).run s'
      | (.error e, s') => (.error e, s') := by
  change (ExceptT.bindCont f (x s).1) (x s).2 = match x s with
      | (.ok a, s') => (f a).run s'
      | (.error e, s') => (.error e, s')
  rcases x s with ⟨a | e, s'⟩ <;> rfl

theorem run_get_bind (f : Session → Job α) (s : Session) :
    ((get : Job Session) >>= f).run s = (f s).run s := rfl

theorem run_throw_bind (e : Fault) (f : β → Job α) (s : Session) :
    ((throw e : Job β) >>= f).run s = (.error e, s) := rfl

theorem run_error_bind (e : Fault) (f : β → Job α) (s : Session) :
    (Job.ofExcept (.error e) >>= f).run s = (.error e, s) := rfl

theorem run_ok_bind (b : β) (f : β → Job α) (s : Session) :
    (Job.ofExcept (.ok b) >>= f).run s = (f b).run s := rfl

/-- Nothing that a document is made of has changed, nor how far the interpreter goes, and no document
was handed over. -/
structure Frame (s s' : Session) : Prop where
  settings : s'.settings = s.settings
  catalog : s'.catalog = s.catalog
  limits : s'.outside.limits = s.outside.limits
  documents : s'.journal.documents = s.journal.documents

theorem Frame.refl (s : Session) : Frame s s := ⟨rfl, rfl, rfl, rfl⟩

theorem Frame.trans {a b c : Session} (h : Frame a b) (h' : Frame b c) : Frame a c :=
  ⟨h'.settings.trans h.settings, h'.catalog.trans h.catalog, h'.limits.trans h.limits,
    h'.documents.trans h.documents⟩

/-- A piece of work that hands no document over. -/
def Quiet (x : StateM Session α) : Prop := ∀ s, Frame s (x s).2

theorem Quiet.pure (a : α) : Quiet (Pure.pure a) := Frame.refl

theorem Quiet.bind {x : StateM Session α} {f : α → StateM Session β} (hx : Quiet x)
    (hf : ∀ a, Quiet (f a)) : Quiet (x >>= f) := fun s => (hx s).trans (hf _ _)

theorem quiet_note {f : Journal → Journal} (hf : ∀ j, (f j).documents = j.documents) :
    Quiet (note f) := fun s => ⟨rfl, rfl, rfl, hf s.journal⟩

theorem quiet_get : Quiet (get : StateM Session Session) := Frame.refl

theorem quiet_install (version : RawText) : Quiet (install version) :=
  Quiet.bind (quiet_note fun _ => rfl) fun _ _ => ⟨rfl, rfl, rfl, rfl⟩

theorem quiet_load (version : RawText) : Quiet (load version) := by
  unfold load
  refine Quiet.bind quiet_get fun s => ?_
  split
  · exact .pure _
  · refine Quiet.bind (quiet_install version) fun o => ?_
    split <;> exact .pure _

theorem quiet_endLoad : Quiet endLoad := by
  unfold endLoad
  refine Quiet.bind quiet_get fun s => ?_
  split
  · exact .pure _
  · refine Quiet.bind quiet_get fun s' => Quiet.bind (quiet_load _) fun o s => ⟨rfl, rfl, rfl, rfl⟩

theorem quiet_resume (c : Nat) : Quiet (resume c) := by
  unfold resume
  refine Quiet.bind (fun s => ⟨rfl, rfl, rfl, rfl⟩) fun d => ?_
  split
  · exact Quiet.bind quiet_get fun s => Quiet.bind (quiet_note fun j => rfl) fun _ => .pure _
  · exact .pure _

theorem quiet_engine : Quiet engine.run := by
  unfold engine
  refine Quiet.bind (fun s => ⟨rfl, rfl, rfl, rfl⟩) fun d => ?_
  split
  · exact .pure _
  · exact Quiet.bind quiet_endLoad fun _ => Quiet.bind (quiet_resume 0) fun _ => .pure _

/-- A document is handed over once. -/
theorem documents_submit (d : Document) (timeout : Option Number.Binary64) (s : Session) :
    ((submit d timeout).run s).2.journal.documents = s.journal.documents ++ [d] := rfl

/-- The document of a compilation, with the units that were found for it. -/
def documentWith (s : Session) (source name : RawText) (options : CompileOptions)
    (found : List (RawText × RawText)) : Document :=
  let d := Document.ofSource name source (options.optimize.getD s.settings.optimize)
    (options.runs.getD s.settings.optimizerRuns) s.settings.machine
  { d with units := d.units ++ found }

theorem ofSource_units (name source : RawText) (optimize : Bool) (runs : Int) (machine : RawText) :
    (Document.ofSource name source optimize runs machine).units = [(sourceName name, source)] := rfl

/-- The documents that a compilation hands over: one, if it comes to that. -/
def handedOver (source name : RawText) (options : CompileOptions) (s : Session) : List Document :=
  match (engine.run s).1, s.catalog.imported [(sourceName name, source)] with
  | .ok _, .ok found =>
    if isOver (options.timeout.or s.settings.compileTimeout) then []
    else [documentWith s source name options found]
  | _, _ => []

theorem mem_handedOver {source name : RawText} {options : CompileOptions} {s : Session} {d : Document}
    (h : d ∈ handedOver source name options s) : ∃ found,
      s.catalog.imported [(sourceName name, source)] = .ok found ∧
      d.units = (sourceName name, source) :: found := by
  unfold handedOver at h
  split at h
  next e found he hf =>
    split at h
    · cases h
    · exact ⟨found, hf, by rw [List.mem_singleton.1 h]; rfl⟩
  next => cases h

theorem documents_compile (source name : RawText) (options : CompileOptions) (s : Session) :
    ((compile source name options).run s).2.journal.documents =
      s.journal.documents ++ handedOver source name options s := by
  unfold handedOver
  have hq : Frame s (engine.run s).2 := quiet_engine s
  unfold compile
  rw [run_bind]
  rcases h : engine.run s with ⟨e | e, s'⟩ <;> rw [h] at hq <;> obtain ⟨h1, h2, -, h3⟩ := hq <;>
    dsimp only at h1 h2 h3 ⊢
  · simpa using h3
  rw [run_get_bind, h1, h2]
  by_cases ho : isOver (options.timeout.or s.settings.compileTimeout) = true
  · rw [if_pos ho, run_throw_bind]
    cases s.catalog.imported [(sourceName name, source)] <;> simp [h3, ho]
  rw [if_neg ho, ofSource_units]
  cases s.catalog.imported [(sourceName name, source)] with
  | error f => simpa [run_error_bind] using h3
  | ok found =>
    rw [run_ok_bind, run_bind]
    dsimp only
    rw [if_neg ho, ← h3]
    have hd := documents_submit (documentWith s source name options found)
      (options.timeout.or s.settings.compileTimeout) s'
    simp only [documentWith, ofSource_units] at hd
    revert hd
    rcases (submit _ _).run s' with ⟨r | r, s''⟩ <;> intro hd
    · exact hd
    · exact hd

end Session

end Solwright
