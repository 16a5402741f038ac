import Solwright.Proofs.Routes.Statuses
import Solwright.Proofs.Suggestion.Request
import Solwright.Proofs.Tools.Answers

/-! The tools and the route that generate contracts agree. A description for a tool and a body that asks for the
same make the same request, and what becomes of it is told by both alike; only the route leaves out members
with certain names, wherever they stand in what it sends. -/

namespace Solwright

open Json Session Schema

theorem ok_eq_ok_iff {ε ε' α : Type} {a a' : α} :
    (Except.ok a : Except ε α) = .ok a' ↔ (Except.ok a : Except ε' α) = .ok a' :=
  ⟨fun h => congrArg Except.ok (Except.ok.inj h), fun h => congrArg Except.ok (Except.ok.inj h)⟩

/-- A request is made where each of its fields passes its own check. -/
theorem Request.read_eq_ok {family name symbol : Json} {features : List RawText} {ms : List (RawText × Json)}
    {r : Request} : Request.read (.obj [("family", family), ("contract_name", name), ("symbol", symbol),
      ("features", .rawTexts features), ("parameters", .obj ms)]) = .ok r ↔
    Family.check family = .accept r.family ∧ ContractName.check name = .accept r.contractName ∧
      Symbol.check symbol = .accept r.symbol ∧ r.features = features ∧ r.parameters = ms := by
  generalize hsaid : [(RawText.formed "family", family), (.formed "contract_name", name),
    (.formed "symbol", symbol), (.formed "features", Json.rawTexts features), (.formed "parameters", .obj ms)] = said
  have hfamily : ∀ a, required (.plain "family") Family.check said = .accept a ↔
      Family.check family = .accept a := fun a =>
    required_eq_accept_iff (k := "family") (by subst hsaid; simp [Field.find?, Field.plain])
  have hname : ∀ a, required nameField ContractName.check said = .accept a ↔
      ContractName.check name = .accept a := fun a =>
    required_eq_accept_iff (k := "contract_name")
      (by subst hsaid; simp [Field.find?, nameField, List.lookup_cons])
  have hsymbol : ∀ a, optional (.plain "symbol") Symbol.check none said = .accept a ↔
      Symbol.check symbol = .accept a := fun a =>
    optional_eq_accept_iff (k := "symbol") (by subst hsaid; simp [Field.find?, Field.plain, List.lookup_cons])
  have hfeatures : ∀ a, optional (.plain "features") (list text) [] said = .accept a ↔ features = a := by
    intro a
    rw [optional_eq_accept_iff (k := "features") (v := .rawTexts features)
      (by subst hsaid; simp [Field.find?, Field.plain, List.lookup_cons]), list_texts]
    exact ⟨Except.ok.inj, congrArg Except.ok⟩
  have hparameters : ∀ a, optional (.plain "parameters") object [] said = .accept a ↔ ms = a := by
    intro a
    rw [optional_eq_accept_iff (k := "parameters") (v := .obj ms)
      (by subst hsaid; simp [Field.find?, Field.plain, List.lookup_cons])]
    exact ⟨Except.ok.inj, congrArg Except.ok⟩
  change (ofMembers said).named recordName = .ok r ↔ _
  rw [named_eq_ok, ofMembers]
  simp only [seq_eq_accept, map_eq_accept, hfamily, hname, hsymbol, hfeatures, hparameters]
  constructor
  · rintro ⟨_, p, ⟨_, f, ⟨_, y, ⟨_, n, ⟨a, ha, rfl⟩, hn, rfl⟩, hy, rfl⟩, rfl, rfl⟩, rfl, rfl⟩
    exact ⟨ha, hn, hy, rfl, rfl⟩
  · rintro ⟨ha, hn, hy, rfl, rfl⟩
    exact ⟨_, _, ⟨_, _, ⟨_, _, ⟨_, _, ⟨_, ha, rfl⟩, hn, rfl⟩, hy, rfl⟩, rfl, rfl⟩, rfl, rfl⟩

namespace Routes

open Tools Output

variable {limit : Nat} {s : Session} {b : Brief} {g : GenerateBody}

/-- A body asks for the same as a description for a tool. No symbol stands for an empty one. -/
structure GenerateBody.Restates (limit : Nat) (g : GenerateBody) (b : Brief) : Prop where
  family : g.family = b.family.json
  contractName : g.contractName = b.contractName.json
  symbol : g.symbol = some b.symbol.json ∨ g.symbol = none ∧ b.symbol = .formed ""
  features : g.features = b.features
  parameters : parametersOf limit b.parameters.json = .ok g.parameters

theorem family_check_iff {name : RawText} {f : Family} :
    Family.check name.json = .accept f ↔ Family.parse name.json = .ok f := by
  cases name with
  | illFormed codes => exact ⟨nofun, nofun⟩
  | formed name =>
  unfold Family.check Family.parse
  cases Family.ofJson? (RawText.formed name).json with
  | some f' => exact ok_eq_ok_iff
  | none => exact ⟨nofun, nofun⟩

theorem orNull_json {t : RawText} (h : t ≠ .formed "") : orNull t.json = t.json := by
  cases t with
  | formed s => exact if_pos (by simpa [RawText.json, Json.isTrue] using h)
  | illFormed codes => rfl

/-- An empty symbol counts as none, in whatever way it is passed on. -/
theorem GenerateBody.Restates.symbol_eq (h : g.Restates limit b) :
    Symbol.check (g.symbol.getD .null) = Symbol.check (orNull b.symbol.json) := by
  by_cases hempty : b.symbol = .formed ""
  · rcases h.symbol with hsymbol | ⟨hsymbol, -⟩ <;> rw [hsymbol, hempty] <;> rfl
  · have htrue : orNull b.symbol.json = b.symbol.json := orNull_json hempty
    rcases h.symbol with hsymbol | ⟨-, hnone⟩
    · rw [hsymbol, htrue]
      rfl
    · exact absurd hnone hempty

/-- The request of a description, where its parameters can be read. -/
theorem order_request_eq {ms : List (RawText × Json)} (h : parametersOf limit b.parameters.json = .ok ms) :
    b.order.request limit = (Request.read (.obj
      [("family", b.family.json), ("contract_name", b.contractName.json), ("symbol", orNull b.symbol.json),
        ("features", .rawTexts b.features), ("parameters", .obj ms)])).mapError .rejection := by
  have hfeatures : b.order.features.elementsOrNone = .ok _ := elementsOrNone_arr _
  unfold Order.request
  rw [hfeatures]
  dsimp only [Except.bind, Brief.order]
  rw [h]
  rfl

/-- A description and a body that asks for the same make the same request, if they make one. -/
theorem GenerateBody.Restates.request_iff (h : g.Restates limit b) (r : Request) :
    acceptedRequest g = .ok r ↔ b.order.request limit = .ok r := by
  rw [order_request_eq h.parameters, mapError_eq_ok, Request.read_eq_ok, family_check_iff]
  unfold acceptedRequest
  rw [h.family]
  cases hfamily : Family.parse b.family.json with
  | error f => exact ⟨nofun, fun hr => nomatch hr.1⟩
  | ok family =>
    have hparsed : Family.check (.str family.name) = .accept r.family ↔
        (Except.ok family : Except Failure Family) = .ok r.family := by
      rw [Family.check_name]
      exact ok_eq_ok_iff
    dsimp only
    rw [mapError_eq_ok, GenerateBody.request, Request.read_eq_ok, hparsed, h.contractName, h.symbol_eq, h.features]

theorem order_request_error {ms : List (RawText × Json)} {f : Fault}
    (h : parametersOf limit b.parameters.json = .ok ms) (hf : b.order.request limit = .error f) :
    ∃ rejection, f = .rejection rejection := by
  rw [order_request_eq h] at hf
  cases hread : Request.read (.obj [("family", b.family.json), ("contract_name", b.contractName.json),
      ("symbol", orNull b.symbol.json), ("features", .rawTexts b.features), ("parameters", .obj ms)]) with
  | ok r =>
    rw [hread] at hf
    cases hf
  | error rejection =>
    rw [hread] at hf
    cases hf
    exact ⟨rejection, rfl⟩

theorem answer_generateSource {r : Request} (h : b.order.request s.outside.limits.reading = .ok r) :
    ((generateSource b.order).run s).1 = .ok (generated r.compose) := by
  obtain ⟨journal, hrun⟩ := generate_run r s
  unfold generateSource
  rw [run_tryCatch, run_accepted_bind, h, run_ok_bind, run_bind, hrun]
  rfl

theorem answer_generateSource_rejected {rejection : Rejection}
    (h : b.order.request s.outside.limits.reading = .error (.rejection rejection)) :
    ((generateSource b.order).run s).1 = .ok (Tools.error ("Generation failed: " ++ rejection.message)) := by
  unfold generateSource
  rw [run_tryCatch, run_accepted_bind, h, run_error_bind]
  rfl

/-- What a tool makes of the outcome of a compilation. -/
def buildAnswer (s : Session) : Except Fault Artifact → Except Fault Json
  | .ok a => .ok (success a.report)
  | .error f => ((compileFault (some invalidRequest) [] f).run s).1

theorem answer_buildContract {r : Request} (h : b.order.request s.outside.limits.reading = .ok r) :
    ∃ s', ((buildContract b.order).run s).1 = buildAnswer s' ((build r none).run s).1 := by
  refine ⟨((build r none).run s).2, ?_⟩
  unfold buildContract
  rw [run_tryCatch, run_accepted_bind, h, run_ok_bind, run_bind]
  rcases (build r none).run s with ⟨f | a, s'⟩ <;> rfl

theorem answer_buildContract_rejected {rejection : Rejection}
    (h : b.order.request s.outside.limits.reading = .error (.rejection rejection)) :
    ((buildContract b.order).run s).1 = .ok (Tools.error (invalidRequest ++ rejection.message)) := by
  unfold buildContract
  rw [run_tryCatch, run_accepted_bind, h, run_error_bind]
  rfl

theorem error_ne_success (message : RawText) (data : List (RawText × Json)) :
    Tools.error message ≠ success data := by
  simp [Tools.error, success]

theorem failed_ne_success (f : Failure) (data : List (RawText × Json)) : failed f [] ≠ success data := by
  simp [failed, success]

/-- No fault of a compilation is told as a success. -/
theorem answer_compileFault (f : Fault) (s : Session) (data : List (RawText × Json)) :
    ((compileFault (some invalidRequest) [] f).run s).1 ≠ .ok (success data) := by
  unfold compileFault
  split
  · exact fun h => failed_ne_success _ data (Except.ok.inj h)
  · split
    · exact fun h => error_ne_success _ data (Except.ok.inj h)
    · exact nofun

/-- What building comes to, after whatever keeps away from the compiler: the verdict on the composed source, or
that there is no compiler. -/
theorem outcome_build {s' : Session} (h : Untouched s s') (hfree : s.loader.Free) (r : Request) :
    s.Loads ∧ ((build r none).run s').1 = s.verdict r.compose.source r.contractName.text ∨
      ¬s.Loads ∧ ∃ reason : String, ((build r none).run s').1 = .error (.failure (.engineUnavailable reason)) := by
  obtain ⟨s'', hgenerated, hrun⟩ := untouched_build r none s'
  have hall := h.trans hgenerated
  have hcompiled := (compiled_compile (hall.free hfree) r.compose.source r.contractName.text).outcome
  rw [hrun]
  rw [hall.eq] at hcompiled ⊢
  exact hcompiled

mutual

/-- No member at any depth is kept out of responses. -/
def showsAll : Json → Bool
  | .arr vs => itemsShowAll vs
  | .obj ms => membersShowAll ms
  | _ => true

def itemsShowAll : List Json → Bool
  | [] => true
  | v :: vs => showsAll v && itemsShowAll vs

def membersShowAll : List (RawText × Json) → Bool
  | [] => true
  | (key, v) :: ms => !isHidden key && showsAll v && membersShowAll ms

end

theorem length_sentMembers (ms : List (RawText × Json)) : (sentMembers ms).length ≤ ms.length := by
  induction ms with
  | nil => exact le_rfl
  | cons m ms ih =>
    rw [sentMembers]
    split
    · exact ih.trans (Nat.le_succ _)
    · exact Nat.succ_le_succ ih

mutual

/-- A value is sent as it is exactly where it shows all of its members. -/
theorem sent_eq_self : ∀ v : Json, sent v = v ↔ showsAll v = true
  | .arr vs => by
    rw [sent, showsAll, ← sentItems_eq_self vs]
    exact ⟨Json.arr.inj, congrArg Json.arr⟩
  | .obj ms => by
    rw [sent, showsAll, ← sentMembers_eq_self ms]
    exact ⟨Json.obj.inj, congrArg Json.obj⟩
  | .null | .bool _ | .int _ | .float _ | .str _ | .illFormed _ => ⟨fun _ => rfl, fun _ => rfl⟩

theorem sentItems_eq_self : ∀ vs : List Json, sentItems vs = vs ↔ itemsShowAll vs = true
  | [] => ⟨fun _ => rfl, fun _ => rfl⟩
  | v :: vs => by
    rw [sentItems, itemsShowAll, Bool.and_eq_true, List.cons.injEq, sent_eq_self v, sentItems_eq_self vs]

theorem sentMembers_eq_self : ∀ ms : List (RawText × Json), sentMembers ms = ms ↔ membersShowAll ms = true
  | [] => ⟨fun _ => rfl, fun _ => rfl⟩
  | (key, v) :: ms => by
    rw [sentMembers, membersShowAll]
    cases hkey : isHidden key with
    | true =>
      -- what has lost a member is too short
      refine ⟨fun h => ?_, by simp⟩
      have hlength := length_sentMembers ms
      rw [if_pos rfl] at h
      rw [h] at hlength
      exact absurd hlength (Nat.not_succ_le_self _)
    | false =>
      rw [if_neg (by decide), List.cons.injEq, Prod.mk.injEq, sent_eq_self v, sentMembers_eq_self ms]
      simp

end

/-- A generated contract with what became of its compilation. -/
def builtReport (source : String) (unit : RawText) (made : Bool) (report : List (RawText × Json)) : Json :=
  .obj [("success", .bool made), ("sourceCode", .str source), ("sourceName", unit.json),
    ("compilation", .obj report)]

theorem respond_builtReport {source : String} {unit : RawText} {made : Bool} {report : List (RawText × Json)}
    (hunit : unit.isFormed = true) (h : isSendable (.obj report) = true) :
    respond 200 (builtReport source unit made report) =
      ⟨200, .json (builtReport source unit made (sentMembers report))⟩ := by
  have h : haveSendable report = true := h
  have hsent : sent (builtReport source unit made report) = builtReport source unit made (sentMembers report) := by
    cases unit <;> rfl
  rw [respond_of_sendable (by simp [builtReport, isSendable, haveSendable, h, hunit]), hsent]

theorem withCompilation_contractReport {report : List (RawText × Json)} {made : Bool} (source : String) (unit : RawText)
    (h : report.lookup (.formed "success") = some (.bool made)) :
    withCompilation (contractReport source unit) report = respond 200 (builtReport source unit made report) := by
  rw [withCompilation, h]
  rfl

/-- A response holds a report on a generated contract. Where the compiler keeps to its form, that is the report
as it is sent, and so the same report exactly where this shows all of its members. -/
structure Holds (s : Session) (response : Response) (source : String) (unit : RawText) (made : Bool)
    (report : List (RawText × Json)) : Prop where
  any : response = respond 200 (builtReport source unit made report)
  sent : s.KeepsToForm → response = ⟨200, .json (builtReport source unit made (sentMembers report))⟩
  same : s.KeepsToForm →
    (response = ⟨200, .json (builtReport source unit made report)⟩ ↔ membersShowAll report = true)

theorem holds_respond {source : String} {unit : RawText} {made : Bool} {report : List (RawText × Json)}
    (hunit : unit.isFormed = true) (h : s.KeepsToForm → isSendable (.obj report) = true) :
    Holds s (respond 200 (builtReport source unit made report)) source unit made report := by
  refine ⟨rfl, fun hform => respond_builtReport hunit (h hform), fun hform => ?_⟩
  rw [respond_builtReport hunit (h hform), ← sentMembers_eq_self]
  simp [builtReport]

/-- A contract that is only generated: both give the same source under the same name, or neither does. -/
inductive GeneratedAlike (limit : Nat) (b : Brief) (tool : Except Fault Json) (response : Response) : Prop
  | both {r : Request} : b.order.request limit = .ok r →
      tool = .ok (success [("generated_code", .str r.compose.source),
        ("source_name", (sourceName r.contractName.text).json), ("applied_features", .rawTexts r.features)]) →
      response = ⟨200, .json (.obj (contractReport r.compose.source (sourceName r.contractName.text)))⟩ →
      GeneratedAlike limit b tool response
  | neither : (∀ data, tool ≠ .ok (success data)) → response.status ≠ 200 → GeneratedAlike limit b tool response

/-- A contract that is compiled as well: both report its artifact, or both report why the output of the compiler
holds none; otherwise neither reports a success. -/
inductive BuiltAlike (s : Session) (b : Brief) (tool : Except Fault Json) (response : Response) : Prop
  | made {r : Request} {a : Artifact} : b.order.request s.outside.limits.reading = .ok r → s.Loads →
      s.verdict r.compose.source r.contractName.text = .ok a → tool = .ok (success a.report) →
      Holds s response r.compose.source (sourceName r.contractName.text) true a.report →
      BuiltAlike s b tool response
  | failed {r : Request} {f : Failure} : b.order.request s.outside.limits.reading = .ok r → s.Loads →
      s.verdict r.compose.source r.contractName.text = .error (.failure f) → ofOutput f = true →
      tool = .ok (failed f []) →
      Holds s response r.compose.source (sourceName r.contractName.text) false f.report →
      BuiltAlike s b tool response
  | neither : (∀ r f, b.order.request s.outside.limits.reading = .ok r → s.Loads →
        s.verdict r.compose.source r.contractName.text = .error (.failure f) → ofOutput f = false) →
      (∀ data, tool ≠ .ok (success data)) → response.status ≠ 200 → BuiltAlike s b tool response

theorem respond_ne_ok {status : Nat} (h : status ≠ 200) (v : Json) : (respond status v).status ≠ 200 := by
  unfold respond
  split
  · exact h
  · decide

theorem isFormed_sourceName (name : String) : (sourceName name).isFormed = true := rfl

theorem sendable_contractReport (source name : String) :
    isSendable (.obj (contractReport source (sourceName name))) = true := by
  simp [contractReport, isSendable, haveSendable, isFormed_sourceName]

theorem generate_of_error {response : Response} (h : acceptedRequest g = .error response) :
    (generate g s).1 = response ∧ response.status ≠ 200 := by
  refine ⟨?_, ?_⟩
  · unfold generate
    rw [h]
    rfl
  · unfold acceptedRequest at h
    split at h
    · cases h
      exact respond_ne_ok (by decide) _
    next family _ =>
      cases hrequest : g.request family with
      | ok r =>
        rw [hrequest] at h
        cases h
      | error rejection =>
        rw [hrequest] at h
        cases h
        exact respond_ne_ok (by decide) _

/-- What the route makes of the outcome of the compilation of a request. -/
def buildResponse (r : Request) : Except Response (List (RawText × Json)) → Response
  | .ok report => withCompilation (contractReport r.compose.source (sourceName r.contractName.text)) report
  | .error response => response

/-- An accepted body is answered after the generator has run, which keeps away from the compiler. -/
theorem generate_of_ok {r : Request} (h : acceptedRequest g = .ok r) (s : Session) :
    ∃ s', Untouched s s' ∧ (generate g s).1 =
      if g.compile then buildResponse r (compiled (build r none) s').1
      else respond 200 (.obj (contractReport r.compose.source (sourceName r.contractName.text))) := by
  obtain ⟨s', huntouched, hrun⟩ := untouched_generate r s
  refine ⟨s', huntouched, ?_⟩
  unfold generate
  rw [h]
  dsimp only
  rw [fst_bind, hrun]
  dsimp only
  cases g.compile with
  | false => rfl
  | true =>
    rw [if_pos rfl, if_pos rfl, fst_bind]
    cases (compiled (build r none) s').1 <;> rfl

theorem compiled_made {work : Job Artifact} {a : Artifact} (h : (work.run s).1 = .ok a) :
    (compiled work s).1 = .ok a.report := by
  unfold compiled
  rw [fst_bind, h]
  rfl

theorem compiled_failed {work : Job Artifact} {f : Failure} (hf : ofOutput f = true)
    (h : (work.run s).1 = .error (.failure f)) : (compiled work s).1 = .ok f.report := by
  unfold compiled
  rw [fst_bind, h]
  cases f with
  | diagnosed _ _ | contractNotFound _ => rfl
  | _ => cases hf

theorem compiled_stopped {work : Job Artifact} {f : Fault} (hf : ∀ e, f = .failure e → ofOutput e = false)
    (h : (work.run s).1 = .error f) :
    ∃ response, (compiled work s).1 = .error response ∧ response.status ≠ 200 := by
  unfold compiled
  rw [fst_bind, h]
  cases f with
  | failure e =>
    have he := hf e rfl
    cases e with
    | diagnosed _ _ | contractNotFound _ => cases he
    | rejected _ | engineUnavailable _ => exact ⟨_, rfl, respond_ne_ok (by decide) _⟩
    | unknownFamily _ | notInterpreted _ => exact ⟨_, rfl, by decide⟩
  | timedOut => exact ⟨_, rfl, respond_ne_ok (by decide) _⟩
  | _ => exact ⟨_, rfl, by decide⟩

/-- Both surfaces go by the verdict, wherever there is a compiler to give one. -/
theorem builtAlike_of_loads {s₁ s₂ : Session} {r : Request} {o : Except Fault Artifact}
    (hrequest : b.order.request s.outside.limits.reading = .ok r) (hloads : s.Loads)
    (hverdict : s.verdict r.compose.source r.contractName.text = o) (ho : ((build r none).run s₂).1 = o) :
    BuiltAlike s b (buildAnswer s₁ o) (buildResponse r (compiled (build r none) s₂).1) := by
  have hunit := isFormed_sourceName r.contractName.text
  have hsendable : ∀ {ms}, report? o = some ms → s.KeepsToForm → isSendable (.obj ms) = true := fun hms hform =>
    isSendable_verdict hform (RawText.isFormed_formed _) (hverdict ▸ hms)
  cases o with
  | ok a =>
    rw [compiled_made ho]
    refine .made hrequest hloads hverdict rfl ?_
    rw [buildResponse, withCompilation_contractReport _ _ rfl]
    exact holds_respond hunit (hsendable rfl)
  | error f =>
    by_cases houtput : ∃ e, f = .failure e ∧ ofOutput e = true
    · obtain ⟨e, rfl, he⟩ := houtput
      rw [compiled_failed he ho]
      refine .failed hrequest hloads hverdict he rfl ?_
      rw [buildResponse, withCompilation_contractReport _ _ rfl]
      exact holds_respond hunit (hsendable (if_pos he))
    · have hstops : ∀ e, f = .failure e → ofOutput e = false := fun e he =>
        Bool.eq_false_iff.2 fun h => houtput ⟨e, he, h⟩
      obtain ⟨response, hstopped, hstatus⟩ := compiled_stopped hstops ho
      rw [hstopped]
      refine .neither (fun r' e hr' _ he => ?_) (answer_compileFault f s₁) hstatus
      rw [hrequest] at hr'
      cases hr'
      rw [hverdict] at he
      cases he
      exact hstops e rfl

end Routes

end Solwright
