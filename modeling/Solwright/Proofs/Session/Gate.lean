import Solwright.Proofs.Composition.Accepted
import Solwright.Proofs.Library.Closure
import Solwright.Proofs.Tools.Answers
import Solwright.Routes

/-! The check in front of the compiler, on every way to it. Whichever way is taken, and whatever was done
before, only a source that passes the check reaches the compiler, and it does so as it was offered; one
that fails it leaves no trace at the compiler. -/

namespace Solwright

open Number Session

variable {α β : Type}

namespace Session

/-- Nothing has been asked of the compiler, the loader is as it was, and nothing has come from outside but
replies of a model. -/
structure Untouched (s s' : Session) : Prop extends Frame s s' where
  loader : s'.loader = s.loader
  installs : s'.journal.installs = s.journal.installs
  outside : s'.outside = { s.outside with replies := s'.outside.replies }

theorem Untouched.refl (s : Session) : Untouched s s := ⟨.refl s, rfl, rfl, rfl⟩

theorem Untouched.trans {a b c : Session} (h : Untouched a b) (h' : Untouched b c) : Untouched a c := by
  refine ⟨h.toFrame.trans h'.toFrame, h'.loader.trans h.loader, h'.installs.trans h.installs, ?_⟩
  rw [h'.outside, h.outside]

/-- A piece of work that keeps away from the compiler. -/
def Aloof (x : StateM Session α) : Prop := ∀ s, Untouched s (x s).2

theorem Aloof.pure (a : α) : Aloof (Pure.pure a) := Untouched.refl

theorem Aloof.bind {x : StateM Session α} {f : α → StateM Session β} (hx : Aloof x)
    (hf : ∀ a, Aloof (f a)) : Aloof (x >>= f) := fun s => (hx s).trans (hf _ _)

theorem aloof_get : Aloof (get : StateM Session Session) := Untouched.refl

theorem aloof_log (level : LogLevel) (message : RawText) : Aloof (log level message) :=
  fun _ => ⟨⟨rfl, rfl, rfl, rfl⟩, rfl, rfl, rfl⟩

theorem aloof_newClient (key : RawText) : Aloof (newClient key) :=
  fun _ => ⟨⟨rfl, rfl, rfl, rfl⟩, rfl, rfl, rfl⟩

theorem aloof_clientFor (passed : Option Client) (settings : Settings) : Aloof (clientFor passed settings) := by
  unfold clientFor
  split
  · exact .pure _
  · split
    · exact Aloof.bind (aloof_newClient _) fun _ => .pure _
    · exact .pure _

theorem Aloof.run_bind {x : Job α} {f : α → Job β} (hx : Aloof x.run) (hf : ∀ a, Aloof (f a).run) :
    Aloof (x >>= f).run := by
  intro s
  have hs := hx s
  rw [Session.run_bind]
  revert hs
  rcases x.run s with ⟨e | a, s'⟩
  · exact id
  · exact fun hs => hs.trans (hf a s')

theorem aloof_get_bind {f : Session → Job α} (h : ∀ s, Untouched s ((f s).run s).2) :
    Aloof (get >>= f).run := h

theorem aloof_ask (q : Question) (timeout : Option Binary64) : Aloof (ask q timeout).run := by
  unfold ask
  split
  · exact .refl
  · exact Aloof.run_bind (fun s => ⟨⟨rfl, rfl, rfl, rfl⟩, rfl, rfl, rfl⟩) fun _ =>
      Aloof.run_bind (fun s => ⟨⟨rfl, rfl, rfl, rfl⟩, rfl, rfl, rfl⟩) fun _ => .refl

theorem Aloof.tryCatch {x : Job α} {handle : Fault → Job α} (hx : Aloof x.run)
    (hh : ∀ f, Aloof (handle f).run) : Aloof (MonadExcept.tryCatch x handle).run := by
  intro s
  have hs := hx s
  rw [run_tryCatch]
  revert hs
  rcases x.run s with ⟨f | a, s'⟩
  · exact fun hs => hs.trans (hh f s')
  · exact id

theorem aloof_ofExcept (e : Except Fault α) : Aloof (Job.ofExcept e).run := .refl

theorem aloof_modelSuggestion (settings : Settings) (prompt : RawText) (context : Context) :
    Aloof (modelSuggestion settings prompt context).run :=
  aloof_get_bind fun s => Aloof.run_bind (aloof_ofExcept _)
    (fun _ => Aloof.run_bind (aloof_ask _ _) fun _ => aloof_ofExcept _) s

theorem aloof_contractReply (settings : Settings) (prompt : RawText) (context : Context) :
    Aloof (contractReply settings prompt context).run :=
  aloof_get_bind fun s => Aloof.run_bind (aloof_ofExcept _) (fun _ => aloof_ask _ _) s

theorem aloof_writeContract (prompt : RawText) (context : Context) (passed : Option Client) (settings : Settings) :
    Aloof (writeContract prompt context passed settings).run := by
  unfold writeContract
  refine Aloof.run_bind (aloof_clientFor passed settings) fun c => ?_
  split
  · exact .refl
  · exact Aloof.run_bind (Aloof.tryCatch (aloof_contractReply _ _ _) fun f => .refl) fun reply =>
      aloof_get_bind fun s => .refl s

theorem aloof_interpret (prompt : RawText) (available : Bool) (context : Context) (passed : Option Client)
    (settings : Settings) : Aloof (interpret prompt available context passed settings) := by
  unfold interpret
  split
  · exact .pure _
  refine Aloof.bind (aloof_clientFor passed settings) fun c => ?_
  split
  · exact .pure _
  refine Aloof.bind (aloof_modelSuggestion _ _ _) fun r => ?_
  split
  · exact .pure _
  · exact Aloof.bind (aloof_log _ _) fun _ => .pure _

theorem aloof_availableVersions (limit : Json) : Aloof (availableVersions limit).run := by
  unfold availableVersions
  refine aloof_get_bind fun s => ?_
  split
  · exact .refl s
  · exact ⟨⟨rfl, rfl, rfl, rfl⟩, rfl, rfl, rfl⟩

theorem aloof_generate (r : Request) : Aloof (Session.generate r).run := by
  unfold Session.generate
  refine Aloof.run_bind (fun s => ⟨⟨rfl, rfl, rfl, rfl⟩, rfl, rfl, rfl⟩) fun _ => ?_
  rw [r.generate_eq_ok]
  exact .refl

theorem untouched_generate (r : Request) (s : Session) :
    ∃ s', Untouched s s' ∧ (Session.generate r).run s = (.ok r.compose, s') := by
  have haloof := aloof_generate r s
  obtain ⟨journal, hrun⟩ := generate_run r s
  rw [hrun] at haloof
  exact ⟨_, haloof, hrun⟩

/-- A contract is built as its source is compiled. -/
theorem untouched_build (r : Request) (timeout : Option Binary64) (s : Session) :
    ∃ s', Untouched s s' ∧ (build r timeout).run s =
      (compile r.compose.source r.contractName.text { timeout := timeout }).run s' := by
  obtain ⟨s', huntouched, hrun⟩ := untouched_generate r s
  refine ⟨s', huntouched, ?_⟩
  rw [build, run_bind, hrun]

/-- A document has been made of a source that passes the check: the source is its first unit and, where
the search for the others ends, the only one under its name. -/
structure IsAdmitted (s : Session) (d : Document) (source name : RawText) : Prop where
  accepted : Source.problems source.shown = []
  main : d.units.head? = some (sourceName name, source)
  only : {n | Search.Needed s.catalog.find? [(sourceName name, source)] n}.Finite →
    ∀ text, (sourceName name, text) ∈ d.units → text = source

/-- What may come of a call that offers a source to the compiler, if it offers one: a document of it if
it passes the check, and nothing at all if it does not. -/
structure Passes (s : Session) (offered? : Option (RawText × RawText)) (s' : Session) : Prop where
  documents : ∃ new, s'.journal.documents = s.journal.documents ++ new ∧
    ∀ d ∈ new, ∃ source name, offered? = some (source, name) ∧ IsAdmitted s d source name
  rejected : ∀ source name, offered? = some (source, name) → Source.problems source.shown ≠ [] → Untouched s s'

theorem Untouched.passes {s s' : Session} (h : Untouched s s') (offered? : Option (RawText × RawText)) :
    Passes s offered? s' :=
  ⟨⟨[], by simp [h.documents], nofun⟩, fun _ _ _ _ => h⟩

theorem Frame.passes {s s' : Session} (h : Frame s s') : Passes s none s' :=
  ⟨⟨[], by simp [h.documents], nofun⟩, nofun⟩

theorem Aloof.passes {x : StateM Session α} (h : Aloof x) (s : Session)
    (offered? : Option (RawText × RawText)) : Passes s offered? (x s).2 :=
  (h s).passes offered?

/-- What is done before the compiler is asked for does not matter. -/
theorem Untouched.passes_trans {s s₁ s₂ : Session} {offered? : Option (RawText × RawText)}
    (h : Untouched s s₁) (h' : Passes s₁ offered? s₂) : Passes s offered? s₂ := by
  obtain ⟨⟨new, hdocuments, hnew⟩, hrejected⟩ := h'
  refine ⟨⟨new, by rw [hdocuments, h.documents], fun d hd => ?_⟩, fun source name ho hp => ?_⟩
  · obtain ⟨source, name, ho, haccepted, hmain, honly⟩ := hnew d hd
    exact ⟨source, name, ho, haccepted, hmain, h.catalog ▸ honly⟩
  · exact h.trans (hrejected source name ho hp)

theorem passes_compile {source : RawText} (h : Source.problems source.shown = []) (name : RawText)
    (options : CompileOptions) (s : Session) :
    Passes s (some (source, name)) ((compile source name options).run s).2 := by
  refine ⟨⟨_, documents_compile source name options s, fun d hd => ?_⟩, ?_⟩
  · obtain ⟨found, hfound, hunits⟩ := mem_handedOver hd
    refine ⟨source, name, rfl, h, by rw [hunits]; rfl, fun hfin text hmem => ?_⟩
    rw [hunits] at hmem
    rcases List.mem_cons.1 hmem with hmain | hmem
    · exact (Prod.mk.inj hmain).2
    · exact absurd (by simp) (Catalog.imported_fresh hfin hfound hmem)
  · rintro _ _ ⟨⟩ hp
    exact absurd h hp

theorem passes_compileChecked (source name : RawText) (timeout : Option Binary64) (s : Session) :
    Passes s (some (source, name)) ((compileChecked source name timeout).run s).2 := by
  unfold compileChecked
  cases hproblems : Source.problems source.shown with
  | nil => exact passes_compile hproblems name _ s
  | cons p ps => exact (Untouched.refl s).passes _

theorem passes_build (r : Request) (timeout : Option Binary64) (s : Session) :
    Passes s (some (r.compose.source, r.contractName.text)) ((build r timeout).run s).2 := by
  obtain ⟨s', huntouched, hrun⟩ := untouched_build r timeout s
  have hproblems : Source.problems (RawText.formed r.compose.source).shown = [] := r.problems_compose
  rw [hrun]
  exact huntouched.passes_trans (passes_compile hproblems _ _ _)

theorem passes_compileWritten (c : WrittenContract) (timeout : Option Binary64) (s : Session) :
    Passes s (some (c.code, compiledName c)) ((compileWritten c timeout).run s).2 :=
  passes_compileChecked c.code (compiledName c) timeout s

theorem Aloof.passes_bind {x : StateM Session α} {f : α → StateM Session β} {s : Session}
    {offered? : Option (RawText × RawText)} (hx : Aloof x)
    (hf : Passes (x s).2 offered? (f (x s).1 (x s).2).2) : Passes s offered? ((x >>= f) s).2 :=
  (hx s).passes_trans hf

theorem passes_get_bind {f : Session → StateM Session β} {s : Session}
    {offered? : Option (RawText × RawText)} (h : Passes s offered? (f s s).2) :
    Passes s offered? ((get >>= f) s).2 := h

theorem passes_run_get_bind {f : Session → Job β} {s : Session} {offered? : Option (RawText × RawText)}
    (h : Passes s offered? ((f s).run s).2) : Passes s offered? ((get >>= f).run s).2 := h

/-- A step that only answers leaves the session to the one before it. -/
theorem snd_bind {x : StateM Session α} {f : α → StateM Session β} (hf : ∀ a s, (f a s).2 = s)
    (s : Session) : ((x >>= f) s).2 = (x s).2 := hf _ _

theorem snd_run_bind {x : Job α} {f : α → Job β} (hf : ∀ a s, ((f a).run s).2 = s) (s : Session) :
    ((x >>= f).run s).2 = (x.run s).2 := by
  rw [run_bind]
  rcases x.run s with ⟨f | a, s'⟩
  · rfl
  · exact hf a s'

theorem snd_get_ofExcept_bind {e : Session → Except Fault α} {f : α → Job β}
    (hf : ∀ a s, ((f a).run s).2 = s) (s : Session) :
    ((get >>= fun s => Job.ofExcept (e s) >>= f : Job β).run s).2 = s := by
  change ((Job.ofExcept (e s) >>= f).run s).2 = s
  rw [snd_run_bind hf]
  rfl

theorem passes_ofExcept_bind {e : Except Fault α} {k : α → Job β} {offer : α → Option (RawText × RawText)}
    {s : Session} (h : ∀ a, Passes s (offer a) ((k a).run s).2) :
    Passes s (e.toOption.bind offer) ((Job.ofExcept e >>= k).run s).2 := by
  cases e with
  | error f => exact (Untouched.refl s).passes _
  | ok a => exact h a

/-- A handler that only answers does not matter. -/
theorem passes_tryCatch {x : Job α} {handle : Fault → Job α} {offer : Option (RawText × RawText)} {s : Session}
    (hx : Passes s offer (x.run s).2) (hh : ∀ f s, ((handle f).run s).2 = s) :
    Passes s offer ((tryCatch x handle).run s).2 := by
  rw [run_tryCatch]
  revert hx
  rcases x.run s with ⟨f | a, s'⟩
  · intro hx
    dsimp only
    rw [hh]
    exact hx
  · exact id

end Session

namespace Routes

open Session

def GenerateBody.offered? (b : GenerateBody) : Option (RawText × RawText) :=
  if b.compile then (acceptedRequest b).toOption.map fun r => (r.compose.source, r.contractName.text)
  else none

/-- The contract that the model writes is offered. -/
def WriteBody.offered? (b : WriteBody) (s : Session) : Option (RawText × RawText) :=
  if b.compile then
    ((writeContract b.prompt (.value (objectOrNull b.context)) none s.settings).run s).1.toOption.map fun c =>
      (c.code, compiledName c)
  else none

/-- What a request for a path offers to the compiler, if it offers anything: a source and the name of
its contract. -/
def offered? (s : Session) (path : String) (b : Body) : Option (RawText × RawText) :=
  let limit := s.outside.limits.reading
  match path with
  | "/contracts/generate" => (b.check limit GenerateBody.ofMembers).toOption.bind GenerateBody.offered?
  | "/contracts/compile" =>
    (b.check limit CompileBody.ofMembers).toOption.map fun b => (b.source, b.contractName)
  | "/ai/generate-contract" => (b.check limit WriteBody.ofMembers).toOption.bind fun b => b.offered? s
  | _ => none

/-- The path of a request that comes to one. -/
def pathOf (method target : String) : Option String :=
  (pathNamed? target).filter fun path => paths.lookup path == some (Text.upper method)

theorem compiled_run (work : Job Artifact) (s : Session) : (compiled work s).2 = (work.run s).2 := by
  unfold compiled
  refine snd_bind (fun r s => ?_) s
  split <;> rfl

theorem passes_generate (b : GenerateBody) (s : Session) : Passes s b.offered? (generate b s).2 := by
  unfold generate
  cases hrequest : acceptedRequest b with
  | error r => exact (Untouched.refl s).passes _
  | ok r =>
    obtain ⟨s', -, hrun⟩ := untouched_generate r s
    refine (aloof_generate r).passes_bind ?_
    rw [hrun, GenerateBody.offered?, hrequest]
    dsimp only
    split
    · rw [snd_bind (fun r s => by cases r <;> rfl), compiled_run]
      exact passes_build r none _
    · exact (Untouched.refl _).passes _

theorem passes_compileSource (b : CompileBody) (s : Session) :
    Passes s (some (b.source, b.contractName)) (compileSource b s).2 := by
  unfold compileSource
  rw [snd_bind (fun _ _ => rfl), compiled_run]
  exact passes_compileChecked b.source b.contractName none s

theorem passes_written (b : WriteBody) (c : WrittenContract) (s : Session) :
    Passes s (if b.compile then some (c.code, compiledName c) else none) (written b c s).2 := by
  unfold written
  cases b.compile with
  | false => exact (Untouched.refl s).passes _
  | true =>
    rw [if_pos rfl, Bool.not_true, if_neg (by decide)]
    cases hproblems : Source.problems c.code with
    | cons p ps => exact (Untouched.refl s).passes _
    | nil =>
      rw [List.isEmpty_nil, Bool.not_true, if_neg (by decide), snd_bind (fun r s => by cases r <;> rfl),
        compiled_run]
      exact passes_compileWritten c none s

theorem passes_write (b : WriteBody) (s : Session) : Passes s (b.offered? s) (write b s).2 := by
  unfold write
  refine passes_get_bind ?_
  by_cases hmodel : (!s.settings.modelAvailable) = true
  · rw [if_pos hmodel]
    exact (Untouched.refl s).passes _
  rw [if_neg hmodel, WriteBody.offered?]
  refine (aloof_writeContract _ _ _ _).passes_bind ?_
  rcases (writeContract b.prompt (.value (objectOrNull b.context)) none s.settings).run s with ⟨f | c, s'⟩
  · refine Aloof.passes ?_ s' _
    cases f with
    | failure e =>
      cases e with
      | notInterpreted reason => exact Aloof.bind (aloof_log _ _) fun _ => .pure _
      | _ => exact .pure _
    | _ => exact .pure _
  · exact passes_written b c s'

theorem aloof_analyze (b : AnalyzeBody) : Aloof (analyze b) := by
  unfold analyze
  exact Aloof.bind aloof_get fun s => Aloof.bind (aloof_interpret _ _ _ _ _) fun r => .pure _

theorem aloof_status : Aloof status := by
  unfold status
  refine Aloof.bind (aloof_availableVersions _) fun r => ?_
  split
  · exact .pure _
  · exact Aloof.bind aloof_get fun s => .pure _

theorem quiet_preload : Quiet preload := by
  unfold preload Session.preload
  refine Quiet.bind (Quiet.bind quiet_engine fun r => ?_) fun _ => Quiet.bind quiet_get fun s => .pure _
  split
  · exact .pure _
  · exact quiet_note fun j => rfl

theorem passes_checked {b : Body} {record : List (RawText × Json) → Checked α}
    {f : α → StateM Session Response} {offer : α → Option (RawText × RawText)} {s : Session}
    (h : ∀ a, Passes s (offer a) (f a s).2) :
    Passes s ((b.check s.outside.limits.reading record).toOption.bind offer) (checked b record f s).2 := by
  unfold checked
  refine passes_get_bind ?_
  cases b.check s.outside.limits.reading record with
  | error r => exact (Untouched.refl s).passes _
  | ok a => exact h a

/-- Nothing is offered on any path but three. -/
theorem offered?_of_ne {path : String} (s : Session) (b : Body) (hgenerate : path ≠ "/contracts/generate")
    (hcompile : path ≠ "/contracts/compile") (hwrite : path ≠ "/ai/generate-contract") :
    offered? s path b = none := by
  unfold offered?
  split
  · exact absurd rfl hgenerate
  · exact absurd rfl hcompile
  · exact absurd rfl hwrite
  · rfl

theorem passes_handleAt (path : String) (b : Body) (s : Session) :
    Passes s (offered? s path b) (handleAt path b s).2 := by
  unfold handleAt
  split
  · exact (Untouched.refl s).passes _
  · exact passes_checked fun b => passes_generate b s
  · have hoffer : offered? s "/contracts/compile" b =
        (b.check s.outside.limits.reading CompileBody.ofMembers).toOption.bind
          fun b => some (b.source, b.contractName) := Option.map_eq_bind
    rw [hoffer]
    exact passes_checked fun b => passes_compileSource b s
  · refine Aloof.passes ?_ s _
    unfold checked
    refine Aloof.bind aloof_get fun s => ?_
    cases b.check s.outside.limits.reading AnalyzeBody.ofMembers with
    | error r => exact .pure r
    | ok b => exact aloof_analyze b
  · exact passes_checked fun b => passes_write b s
  · exact aloof_status.passes s _
  next hgenerate hcompile _ hwrite _ =>
    rw [offered?_of_ne s b hgenerate hcompile hwrite]
    exact (quiet_preload s).passes

theorem passes_handle (method target : String) (b : Body) (s : Session) :
    Passes s ((pathOf method target).bind fun path => offered? s path b) (handle method target b s).2 := by
  unfold handle pathOf
  cases pathNamed? target with
  | none => exact (Untouched.refl s).passes _
  | some path =>
    dsimp only
    by_cases hmethod : paths.lookup path = some (Text.upper method)
    · simp only [hmethod, bne_self_eq_false, Bool.false_eq_true, if_false, Option.filter, beq_self_eq_true,
        if_true, Option.bind_some]
      exact passes_handleAt path b s
    · rw [if_pos (bne_iff_ne.2 hmethod)]
      exact (Untouched.refl s).passes _

end Routes

namespace Tools

open Session

theorem snd_compileFault (heading : Option String) (before : List (RawText × Json)) (f : Fault) (s : Session) :
    ((compileFault heading before f).run s).2 = s := by
  unfold compileFault
  split
  · rfl
  · split <;> rfl

theorem passes_compileSource (source name : Json) (s : Session) :
    Passes s ((sourceText source).toOption.bind fun text => some (text, name.display))
      ((compileSource source name).run s).2 := by
  refine passes_tryCatch (passes_ofExcept_bind fun text => ?_) (snd_compileFault none [])
  rw [snd_run_bind fun _ _ => rfl]
  exact passes_compileChecked text name.display none s

theorem passes_accepted_bind {o : Order} {k : Request → Job β} {offer : Request → Option (RawText × RawText)}
    {s : Session} (h : ∀ r, Passes s (offer r) ((k r).run s).2) :
    Passes s ((o.request s.outside.limits.reading).toOption.bind offer) ((accepted o >>= k).run s).2 := by
  rw [run_accepted_bind]
  exact passes_ofExcept_bind h

theorem passes_buildContract (o : Order) (s : Session) :
    Passes s ((o.request s.outside.limits.reading).toOption.bind fun r => some (r.compose.source, r.contractName.text))
      ((buildContract o).run s).2 := by
  refine passes_tryCatch (passes_accepted_bind fun r => ?_) (snd_compileFault _ [])
  rw [snd_run_bind fun _ _ => rfl]
  exact passes_build r none s

theorem passes_prepareDeployment (o : Order) (s : Session) :
    Passes s ((o.request s.outside.limits.reading).toOption.bind fun r => some (r.compose.source, r.contractName.text))
      ((prepareDeployment o).run s).2 := by
  refine passes_tryCatch (passes_accepted_bind fun r => ?_) (snd_compileFault _ [])
  rw [snd_run_bind fun a => snd_get_ofExcept_bind fun _ _ => rfl]
  exact passes_build r none s

theorem passes_compileWritten (text : Json) (s : Session) :
    Passes s (((replyText text).bind (WrittenContract.ofText s.outside.limits.reading)).toOption.bind fun c =>
      some (c.code, compiledName c)) ((compileWritten text).run s).2 := by
  unfold compileWritten
  refine passes_run_get_bind ?_
  dsimp only
  cases (replyText text).bind (WrittenContract.ofText s.outside.limits.reading) with
  | error f =>
    cases f with
    | _ => exact (Untouched.refl s).passes _
  | ok c =>
    refine passes_tryCatch ?_ (snd_compileFault none c.members)
    rw [snd_run_bind fun _ _ => rfl]
    exact Session.passes_compileWritten c none s

end Tools

/-- A call that can come to the compiler: directly, by a request to the service, or by a tool. -/
inductive Entrance
  | compile (source name : RawText) (timeout : Option Binary64)
  | build (r : Request) (timeout : Option Binary64)
  | compileWritten (c : WrittenContract) (timeout : Option Binary64)
  | request (method target : String) (b : Routes.Body)
  | compileTool (source name : Json)
  | buildTool (o : Tools.Order)
  | deploymentTool (o : Tools.Order)
  | writtenTool (text : Json)

/-- The source that a call offers to the compiler, if it offers one, and the name of its contract. -/
def Entrance.offered? (s : Session) : Entrance → Option (RawText × RawText)
  | .compile source name _ => some (source, name)
  | .build r _ => some (r.compose.source, r.contractName.text)
  | .compileWritten c _ => some (c.code, compiledName c)
  | .request method target b => (Routes.pathOf method target).bind fun path => Routes.offered? s path b
  | .compileTool source name => (Tools.sourceText source).toOption.bind fun text => some (text, name.display)
  | .buildTool o | .deploymentTool o =>
    (o.request s.outside.limits.reading).toOption.bind fun r => some (r.compose.source, r.contractName.text)
  | .writtenTool text =>
    ((Tools.replyText text).bind (WrittenContract.ofText s.outside.limits.reading)).toOption.bind fun c =>
      some (c.code, compiledName c)

/-- The session that a call leaves. -/
def Entrance.after (s : Session) : Entrance → Session
  | .compile source name timeout => ((compileChecked source name timeout).run s).2
  | .build r timeout => ((Session.build r timeout).run s).2
  | .compileWritten c timeout => ((Session.compileWritten c timeout).run s).2
  | .request method target b => (Routes.handle method target b s).2
  | .compileTool source name => ((Tools.compileSource source name).run s).2
  | .buildTool o => ((Tools.buildContract o).run s).2
  | .deploymentTool o => ((Tools.prepareDeployment o).run s).2
  | .writtenTool text => ((Tools.compileWritten text).run s).2

/-- The session that calls lead to, one after another. -/
def Session.through (s : Session) (calls : List Entrance) : Session :=
  calls.foldl Entrance.after s

theorem Entrance.passes (c : Entrance) (s : Session) : Passes s (c.offered? s) (c.after s) := by
  cases c with
  | compile source name timeout => exact passes_compileChecked source name timeout s
  | build r timeout => exact passes_build r timeout s
  | compileWritten c timeout => exact passes_compileWritten c timeout s
  | request method target b => exact Routes.passes_handle method target b s
  | compileTool source name => exact Tools.passes_compileSource source name s
  | buildTool o => exact Tools.passes_buildContract o s
  | deploymentTool o => exact Tools.passes_prepareDeployment o s
  | writtenTool text => exact Tools.passes_compileWritten text s

theorem Session.through_append (s : Session) (calls : List Entrance) (c : Entrance) :
    s.through (calls ++ [c]) = c.after (s.through calls) := by
  rw [through, List.foldl_append]
  rfl

/-- After any calls, every document that the compiler was given belongs to one of them: that call offered
a source that passes the check, and the document has it as it is for its main unit. A call whose source
fails the check leaves the loader and all that was asked of the compiler as they were. -/
theorem gate_not_bypassed (s : Session) (calls : List Entrance) :
    (∃ new, (s.through calls).journal.documents = s.journal.documents ++ new ∧
      ∀ d ∈ new, ∃ before c rest source name, calls = before ++ c :: rest ∧
        c.offered? (s.through before) = some (source, name) ∧
        IsAdmitted (s.through before) d source name) ∧
    ∀ c source name, c.offered? (s.through calls) = some (source, name) → Source.problems source.shown ≠ [] →
      Untouched (s.through calls) (s.through (calls ++ [c])) := by
  refine ⟨?_, fun c source name ho hp => ?_⟩
  · induction calls using List.reverseRecOn with
    | nil => exact ⟨[], by simp [through], nofun⟩
    | append_singleton calls c ih =>
      obtain ⟨old, hold, hbefore⟩ := ih
      obtain ⟨new, hnew, hdocuments⟩ := (c.passes (s.through calls)).documents
      refine ⟨old ++ new, by rw [s.through_append, hnew, hold, List.append_assoc], fun d hd => ?_⟩
      rcases List.mem_append.1 hd with hd | hd
      · obtain ⟨before, c', rest, source, name, rfl, ho, hadmitted⟩ := hbefore d hd
        exact ⟨before, c', rest ++ [c], source, name, by simp, ho, hadmitted⟩
      · obtain ⟨source, name, ho, hadmitted⟩ := hdocuments d hd
        exact ⟨calls, c, [], source, name, rfl, ho, hadmitted⟩
  · rw [s.through_append]
    exact (c.passes (s.through calls)).rejected source name ho hp

end Solwright
