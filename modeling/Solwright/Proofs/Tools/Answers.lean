import Solwright.Proofs.Deployment.Described
import Solwright.Proofs.Session.Outcome
import Solwright.Tools

/-! What the tools answer. A tool makes an answer of every failure, and those that take a description
of a contract also of a value that is wrong in itself; what else goes wrong on the way escapes it. -/

namespace Solwright.Tools

open Session

variable {s : Session} {f : Fault}

/-- A description of a contract that is all text. -/
structure Brief where
  family : RawText
  contractName : RawText
  features : List RawText
  symbol : RawText
  parameters : RawText

def Brief.order (b : Brief) : Order :=
  ⟨b.family.json, b.contractName.json, b.symbol.json, .rawTexts b.features, b.parameters.json⟩

/-- A call of a tool that may come to a contract. -/
inductive Call
  | generate (b : Brief)
  | compile (source name : RawText)
  | build (b : Brief)
  | prepare (b : Brief)
  | compileWritten (text : RawText)

def Call.job : Call → Job Json
  | .generate b => generateSource b.order
  | .compile source name => compileSource source.json name.json
  | .build b => buildContract b.order
  | .prepare b => prepareDeployment b.order
  | .compileWritten text => Tools.compileWritten text.json

def Call.brief? : Call → Option Brief
  | .generate b | .build b | .prepare b => some b
  | .compile _ _ | .compileWritten _ => none

/-- An answer tells success from error. -/
def HasStatus (v : Json) : Prop :=
  v.get? "status" = some (.str "success") ∨ v.get? "status" = some (.str "error")

/-- A tool makes an answer of a fault: of a failure, and if it takes a description of a contract also
of a value that is wrong in itself. -/
def Call.Tells (c : Call) (f : Fault) : Prop :=
  (∃ e, f = .failure e) ∨ c.brief?.isSome = true ∧ f.valueMessage?.isSome = true

/-- A call comes to the compiler with a source under a name. -/
inductive Call.Compiles (s : Session) : Call → RawText → RawText → Prop
  | compile {source name : RawText} : Source.problems source.shown = [] →
      Compiles s (.compile source name) source name
  | build {b : Brief} {r : Request} : b.order.request s.outside.limits.reading = .ok r →
      Compiles s (.build b) r.compose.source r.contractName.text
  | prepare {b : Brief} {r : Request} : b.order.request s.outside.limits.reading = .ok r →
      Compiles s (.prepare b) r.compose.source r.contractName.text
  | compileWritten {text : RawText} {c : WrittenContract} :
      WrittenContract.ofText s.outside.limits.reading text = .ok c → Source.problems c.code = [] →
      Compiles s (.compileWritten text) c.code (compiledName c)

/-- What a text holds as JSON, which need not be well formed. -/
def readText (limit : Nat) : RawText → Except Json.Fault Json
  | .formed s => Json.read limit s.toList
  | .illFormed codes => Json.readCodes limit codes

/-- What escapes a call: parameters that are nested too deeply, a limit in reading a reply, what stops
a compilation, and arguments that cannot be encoded. -/
inductive Escapes (s : Session) : Call → Fault → Prop
  | nested {c : Call} {b : Brief} {inObject : Bool} : c.brief? = some b →
      readText s.outside.limits.reading b.parameters = .error (.nesting inObject) →
      Escapes s c (.tooDeep ((Json.Fault.nesting inObject).message b.parameters.shown.toList))
  | unreadable {text : RawText} {f : Fault} : (∀ e, f ≠ .failure e) →
      WrittenContract.ofText s.outside.limits.reading text = .error f → Escapes s (.compileWritten text) f
  | halted {c : Call} {source name : RawText} {f : Fault} : c.Compiles s source name → s.Loads →
      s.Halts source name f → ¬c.Tells f → Escapes s c f
  | unencoded {b : Brief} {r : Request} {a : Artifact} {f : Fault} :
      b.order.request s.outside.limits.reading = .ok r →
      s.Loads → s.verdict r.compose.source r.contractName.text = .ok a →
      Deployment.payload s.outside.limits.room a r = .error f → ¬Call.Tells (.prepare b) f → Escapes s (.prepare b) f

theorem hasStatus_success (data : List (RawText × Json)) : HasStatus (success data) := .inl rfl

theorem hasStatus_error (message : RawText) : HasStatus (error message) := .inr rfl

theorem hasStatus_failed (e : Failure) (before : List (RawText × Json)) : HasStatus (failed e before) :=
  .inr rfl

/-- A handler makes an answer of some faults and lets the others go on. -/
structure Handles (handle : Fault → Job Json) (tells : Fault → Prop) : Prop where
  told : ∀ f s, tells f → ∃ v, (handle f).run s = (.ok v, s) ∧ HasStatus v
  untold : ∀ f s, ¬tells f → (handle f).run s = (.error f, s)

theorem handles_told {c : Call} (hc : c.brief?.isSome = true) (heading : String) :
    Handles (fun f => Job.ofExcept (told heading f)) c.Tells where
  told f s h := by
    obtain ⟨e, rfl⟩ | ⟨-, hvalue⟩ := h
    · exact ⟨_, rfl, hasStatus_error _⟩
    · obtain ⟨reason, hreason⟩ := Option.isSome_iff_exists.1 hvalue
      have htold : Tools.told heading f = .ok (error (heading ++ reason)) := by
        unfold Tools.told
        split
        · cases hreason
        · rw [hreason]
      rw [htold]
      exact ⟨_, rfl, hasStatus_error _⟩
  untold f s h := by
    have htold : Tools.told heading f = .error f := by
      unfold Tools.told
      split
      next e => exact absurd (.inl ⟨e, rfl⟩) h
      next =>
        cases hvalue : f.valueMessage? with
        | none => rfl
        | some reason => exact absurd (.inr ⟨hc, by rw [hvalue]; rfl⟩) h
    rw [htold]
    rfl

theorem handles_compileFault {c : Call} {heading : Option String} (hc : c.brief?.isSome = heading.isSome)
    (before : List (RawText × Json)) : Handles (compileFault heading before) c.Tells where
  told f s h := by
    obtain ⟨e, rfl⟩ | ⟨hbrief, hvalue⟩ := h
    · exact ⟨_, rfl, hasStatus_failed e before⟩
    · obtain ⟨reason, hreason⟩ := Option.isSome_iff_exists.1 hvalue
      obtain ⟨words, hwords⟩ := Option.isSome_iff_exists.1 (hc.symm.trans hbrief)
      have htold : compileFault heading before f = (return error (words ++ reason)) := by
        unfold compileFault
        split
        · cases hreason
        · rw [hwords, hreason]
      rw [htold]
      exact ⟨_, rfl, hasStatus_error _⟩
  untold f s h := by
    have htold : compileFault heading before f = throw f := by
      unfold compileFault
      split
      next e => exact absurd (.inl ⟨e, rfl⟩) h
      next =>
        split
        next words reason hreason =>
          exact absurd (.inr ⟨hc, by rw [hreason]; rfl⟩) h
        next => rfl
    rw [htold]
    rfl

theorem Escapes.not_tells {c : Call} (h : Escapes s c f) : ¬c.Tells f := by
  cases h with
  | nested => rintro (⟨e, ⟨⟩⟩ | ⟨-, ⟨⟩⟩)
  | unreadable hf => exact fun htells => htells.elim (fun ⟨e, he⟩ => hf e he) (fun h => nomatch h.1)
  | halted _ _ _ hnot => exact hnot
  | unencoded _ _ _ _ hnot => exact hnot

theorem not_failure_of_not_tells {c : Call} (hf : ¬c.Tells f) (e : Failure) : f ≠ .failure e :=
  fun he => hf (.inl ⟨e, he⟩)

theorem valueMessage?_of_not_tells {c : Call} (hc : c.brief?.isSome = true) (hf : ¬c.Tells f) :
    f.valueMessage? = none := by
  by_contra hvalue
  exact hf (.inr ⟨hc, Option.isSome_iff_ne_none.2 hvalue⟩)

/-- What a call comes to: an answer that tells success from error, or a fault that escapes. -/
structure Answered (s : Session) (c : Call) (p : Except Fault Json × Session) : Prop where
  status : ∀ v, p.1 = .ok v → HasStatus v
  escapes : ∀ f, p.1 = .error f ↔ Escapes s c f
  leaves : Leaves s p.2

theorem answered_of_comes {x : Job Json} {P : Json → Prop} {W : Fault → Prop} {c : Call}
    {handle : Fault → Job Json} (hx : Comes s x P W) (hh : Handles handle c.Tells)
    (hP : ∀ v, P v → HasStatus v) (hW : ∀ f, ¬c.Tells f → (W f ↔ Escapes s c f)) :
    Answered s c ((tryCatch x handle).run s) := by
  obtain ⟨hvalue, hfault, hleaves⟩ := hx
  -- a fault escapes where the work ends in it and no answer is made of it
  have hescapes : ∀ f, Escapes s c f ↔ (x.run s).1 = .error f ∧ ¬c.Tells f := by
    intro f
    constructor
    · intro h
      have hnot := h.not_tells
      exact ⟨(hfault f (not_failure_of_not_tells hnot)).2 ((hW f hnot).2 h), hnot⟩
    · rintro ⟨h, hnot⟩
      exact (hW f hnot).1 ((hfault f (not_failure_of_not_tells hnot)).1 h)
  rw [run_tryCatch]
  rcases hrun : x.run s with ⟨f | v, s'⟩ <;> rw [hrun] at hvalue hescapes hleaves <;> dsimp only
  · by_cases htold : c.Tells f
    · obtain ⟨v, hv, hstatus⟩ := hh.told f s' htold
      rw [hv]
      refine ⟨?_, fun f' => ⟨nofun, fun h => ?_⟩, hleaves⟩
      · rintro _ ⟨⟩
        exact hstatus
      · obtain ⟨⟨⟩, hnot⟩ := (hescapes f').1 h
        exact absurd htold hnot
    · rw [hh.untold f s' htold]
      refine ⟨nofun, fun f' => ⟨?_, fun h => ((hescapes f').1 h).1⟩, hleaves⟩
      rintro ⟨⟩
      exact (hescapes f).2 ⟨rfl, htold⟩
  · refine ⟨?_, fun f' => ⟨nofun, fun h => ((hescapes f').1 h).1⟩, hleaves⟩
    rintro _ ⟨⟩
    exact hP v ((hvalue v).1 rfl)

theorem parametersOf_json (limit : Nat) (t : RawText) : parametersOf limit t.json =
    if t = .formed "" then .ok [] else parametersRead t.shown.toList (readText limit t) := by
  cases t with
  | formed s =>
    simp only [RawText.json, parametersOf, RawText.formed.injEq, String.isEmpty_iff]
    rfl
  | illFormed codes =>
    rw [if_neg nofun, RawText.shown, String.toList_ofList]
    rfl

/-- Only parameters that are nested too deeply are not a value that is wrong in itself. -/
theorem Brief.request_error_iff (limit : Nat) (b : Brief) (hf : f.valueMessage? = none) :
    b.order.request limit = .error f ↔ ∃ inObject,
      readText limit b.parameters = .error (.nesting inObject) ∧
        f = .tooDeep ((Json.Fault.nesting inObject).message b.parameters.shown.toList) := by
  have hread : ∀ r : Except Rejection Request, r.mapError Fault.rejection ≠ .error f := by
    rintro (r | r) ⟨⟩
    cases hf
  have hfeatures : b.order.features.elementsOrNone = .ok _ := Json.elementsOrNone_arr _
  unfold Order.request
  rw [hfeatures]
  dsimp only [Except.bind, Brief.order]
  rw [parametersOf_json]
  by_cases hempty : b.parameters = .formed ""
  · rw [if_pos hempty, hempty]
    exact ⟨fun h => absurd h (hread _), fun ⟨_, hnesting, _⟩ => nomatch hnesting⟩
  rw [if_neg hempty]
  cases hjson : readText limit b.parameters with
  | ok v =>
    refine ⟨fun h => ?_, fun ⟨_, hnesting, _⟩ => nomatch hnesting⟩
    cases v with
    | obj ms => exact absurd h (hread _)
    | _ =>
      cases h
      cases hf
  | error e =>
    cases e with
    | nesting inObject =>
      refine ⟨?_, ?_⟩
      · rintro ⟨⟩
        exact ⟨inObject, rfl, rfl⟩
      · rintro ⟨_, ⟨⟩, rfl⟩
        rfl
    | _ =>
      refine ⟨fun h => ?_, fun ⟨_, hnesting, _⟩ => nomatch hnesting⟩
      cases h
      cases hf

theorem run_accepted_bind {β : Type} (o : Order) (k : Request → Job β) (s : Session) :
    (accepted o >>= k).run s = (Job.ofExcept (o.request s.outside.limits.reading) >>= k).run s := by
  rw [accepted, bind_assoc]
  rfl

theorem answered_generate (h : s.loader.Free) (b : Brief) :
    Answered s (.generate b) ((generateSource b.order).run s) := by
  have hwork : ∀ r, Comes s (Session.generate r >>= fun c => pure (generated c))
      (fun v => v = generated r.compose) fun _ => False := by
    intro r
    obtain ⟨journal, hrun⟩ := generate_run r s
    have hbind := run_bind (Session.generate r) (fun c => pure (generated c)) s
    rw [hrun] at hbind
    refine ⟨fun v => ?_, fun f _ => ?_, ?_⟩ <;> rw [hbind]
    · exact ⟨fun h => (Except.ok.inj h).symm, fun h => congrArg Except.ok h.symm⟩
    · exact ⟨nofun, nofun⟩
    · exact ⟨h, rfl, rfl, rfl, .refl _⟩
  refine answered_of_comes ((Comes.ofExcept_bind h fun r _ => hwork r).of_run (run_accepted_bind _ _ _))
    (handles_told (c := .generate b) rfl _) ?_ ?_
  · rintro v ⟨r, -, rfl⟩
    exact hasStatus_success _
  · intro f hnot
    rw [b.request_error_iff _ (valueMessage?_of_not_tells rfl hnot)]
    refine ⟨?_, fun hescapes => ?_⟩
    · rintro (⟨inObject, hread, rfl⟩ | ⟨r, -, ⟨⟩⟩)
      exact .nested rfl hread
    · cases hescapes with
      | nested hb hread =>
        cases hb
        exact .inl ⟨_, hread, rfl⟩
      | halted hcompiles => cases hcompiles

theorem sourceText_json (t : RawText) : sourceText t.json = .ok t := by cases t <;> rfl

theorem display_json (t : RawText) : t.json.display = t := by cases t <;> rfl

theorem replyText_json (t : RawText) : replyText t.json = .ok t := by cases t <;> rfl

theorem answered_compile (h : s.loader.Free) (source name : RawText) :
    Answered s (.compile source name) ((compileSource source.json name.json).run s) := by
  unfold compileSource
  rw [display_json]
  have hwork := Comes.ofExcept_bind h (e := sourceText source.json)
    fun text _ => (comes_compileChecked h text name).andThen fun a => .ok (success a.report)
  refine answered_of_comes hwork (handles_compileFault (c := .compile source name) rfl _) ?_ ?_
  · rintro v ⟨text, -, a, -, ⟨⟩⟩
    exact hasStatus_success _
  · intro f hnot
    have hfailure := not_failure_of_not_tells hnot
    refine ⟨?_, fun hescapes => ?_⟩
    · rw [sourceText_json]
      rintro (⟨⟨⟩⟩ | ⟨text, ⟨⟩, ⟨hproblems, hloads, hverdict⟩ | ⟨a, -, ⟨⟩⟩⟩)
      exact .halted (.compile hproblems) hloads ((verdict_error_iff hfailure).1 hverdict) hnot
    · cases hescapes with
      | nested hb => cases hb
      | halted hcompiles hloads hhalts =>
        cases hcompiles with
        | compile hproblems =>
          exact .inr ⟨source, sourceText_json source, .inl ⟨hproblems, hloads, (verdict_error_iff hfailure).2 hhalts⟩⟩

theorem answered_build (h : s.loader.Free) (b : Brief) :
    Answered s (.build b) ((buildContract b.order).run s) := by
  have hwork := Comes.ofExcept_bind h (e := b.order.request s.outside.limits.reading)
    fun r _ => (comes_build h r).andThen fun a => .ok (success a.report)
  refine answered_of_comes (hwork.of_run (run_accepted_bind _ _ _)) (handles_compileFault (c := .build b) rfl _) ?_ ?_
  · rintro v ⟨r, -, a, -, ⟨⟩⟩
    exact hasStatus_success _
  · intro f hnot
    have hfailure := not_failure_of_not_tells hnot
    rw [b.request_error_iff _ (valueMessage?_of_not_tells rfl hnot)]
    refine ⟨?_, fun hescapes => ?_⟩
    · rintro (⟨inObject, hread, rfl⟩ | ⟨r, hr, ⟨hloads, hverdict⟩ | ⟨a, -, ⟨⟩⟩⟩)
      · exact .nested rfl hread
      · exact .halted (.build hr) hloads ((verdict_error_iff hfailure).1 hverdict) hnot
    · cases hescapes with
      | nested hb hread =>
        cases hb
        exact .inl ⟨_, hread, rfl⟩
      | halted hcompiles hloads hhalts =>
        cases hcompiles with
        | build hr => exact .inr ⟨_, hr, .inl ⟨hloads, (verdict_error_iff hfailure).2 hhalts⟩⟩

theorem answered_prepare (h : s.loader.Free) (b : Brief) :
    Answered s (.prepare b) ((prepareDeployment b.order).run s) := by
  let room := s.outside.limits.room
  have hwork := Comes.ofExcept_bind h (e := b.order.request s.outside.limits.reading)
    fun r _ => ((comes_build h r).andThen fun a =>
      (Deployment.summary room a r (.int 20) .null).map success).of_run
        ((comes_build h r).leaves.run_bind_get fun limits a =>
          (Deployment.summary limits.room a r (.int 20) .null).map success)
  -- the summary is taken into the job, so that a fault of it is handled like one of the compilation
  have hjob : prepareDeployment b.order = tryCatch
      (accepted b.order >>= fun r => build r none >>= fun a => (get : Job Session) >>= fun s' =>
        Job.ofExcept ((Deployment.summary s'.outside.limits.room a r (.int 20) .null).map success))
      (compileFault (some invalidRequest) []) := by
    simp only [prepareDeployment, ofExcept_bind_pure]
  rw [hjob]
  refine answered_of_comes (hwork.of_run (run_accepted_bind _ _ _)) (handles_compileFault (c := .prepare b) rfl _) ?_ ?_
  · rintro v ⟨r, -, a, -, hv⟩
    cases hsummary : Deployment.summary room a r (.int 20) .null with
    | error f =>
      rw [hsummary] at hv
      cases hv
    | ok data =>
      rw [hsummary] at hv
      cases hv
      exact hasStatus_success _
  · intro f hnot
    have hfailure := not_failure_of_not_tells hnot
    have hvalue := valueMessage?_of_not_tells rfl hnot
    have hpayload : ∀ a r, (Deployment.summary room a r (.int 20) .null).map success = .error f ↔
        Deployment.payload room a r = .error f := by
      intro a r
      have hprice : Wei.ofPrice (.int 20) = .ok 20000000000 := rfl
      rw [← Deployment.summary_error_iff .null hprice hvalue]
      cases Deployment.summary room a r (.int 20) .null with
      | error f' => exact ⟨fun h => by cases h; rfl, fun h => by cases h; rfl⟩
      | ok data => exact ⟨nofun, nofun⟩
    rw [b.request_error_iff _ hvalue]
    refine ⟨?_, fun hescapes => ?_⟩
    · rintro (⟨inObject, hread, rfl⟩ | ⟨r, hr, ⟨hloads, hverdict⟩ | ⟨a, ⟨hloads, ha⟩, hsummary⟩⟩)
      · exact .nested rfl hread
      · exact .halted (.prepare hr) hloads ((verdict_error_iff hfailure).1 hverdict) hnot
      · exact .unencoded hr hloads ha ((hpayload a r).1 hsummary) hnot
    · cases hescapes with
      | nested hb hread =>
        cases hb
        exact .inl ⟨_, hread, rfl⟩
      | halted hcompiles hloads hhalts =>
        cases hcompiles with
        | prepare hr => exact .inr ⟨_, hr, .inl ⟨hloads, (verdict_error_iff hfailure).2 hhalts⟩⟩
      | unencoded hr hloads ha hfault =>
        exact .inr ⟨_, hr, .inr ⟨_, ⟨hloads, ha⟩, (hpayload _ _).2 hfault⟩⟩

theorem answered_compileWritten (h : s.loader.Free) (text : RawText) :
    Answered s (.compileWritten text) ((Tools.compileWritten text.json).run s) := by
  unfold Tools.compileWritten
  rw [run_get_bind]
  dsimp only
  rw [replyText_json, Except.bind]
  split
  next e hread =>
    refine ⟨?_, fun f => ⟨nofun, fun hescapes => ?_⟩, .refl h⟩
    · rintro v ⟨⟩
      exact hasStatus_error _
    · cases hescapes with
      | nested hb => cases hb
      | unreadable hf hfault =>
        rw [hread] at hfault
        cases hfault
        exact absurd rfl (hf e)
      | halted hcompiles =>
        cases hcompiles with
        | compileWritten hok => rw [hread] at hok; cases hok
  next f hf hread =>
    refine ⟨nofun, fun f' => ⟨?_, fun hescapes => ?_⟩, .refl h⟩
    · rintro ⟨⟩
      exact .unreadable hf hread
    · cases hescapes with
      | nested hb => cases hb
      | unreadable _ hfault =>
        rw [hread] at hfault
        cases hfault
        rfl
      | halted hcompiles =>
        cases hcompiles with
        | compileWritten hok => rw [hread] at hok; cases hok
  next c hread =>
    have hwork := (comes_compileChecked h c.code (compiledName c)).andThen fun a =>
      .ok (success (putMember (.formed "compilation") (.obj a.report) c.members))
    refine answered_of_comes hwork (handles_compileFault (c := .compileWritten text) rfl _) ?_ ?_
    · rintro v ⟨a, -, ⟨⟩⟩
      exact hasStatus_success _
    · intro f hnot
      have hfailure := not_failure_of_not_tells hnot
      rw [verdict_error_iff hfailure]
      refine ⟨?_, fun hescapes => ?_⟩
      · rintro (⟨hproblems, hloads, hhalts⟩ | ⟨a, -, ⟨⟩⟩)
        exact .halted (.compileWritten hread hproblems) hloads hhalts hnot
      · cases hescapes with
        | nested hb => cases hb
        | unreadable _ hfault => rw [hread] at hfault; cases hfault
        | halted hcompiles hloads hhalts =>
          cases hcompiles with
          | compileWritten hok hproblems =>
            rw [hread] at hok
            cases hok
            exact .inl ⟨hproblems, hloads, hhalts⟩

end Solwright.Tools
