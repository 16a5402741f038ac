import Solwright.Proofs.Json.Members
import Solwright.Proofs.Session.Settled
import Solwright.Proofs.Tools.Escapes

/-! Which status tells of which outcome, for the routes that can come to the compiler. What a body asks for
is settled before the compiler is; then the outcome of its compilation decides. -/

namespace Solwright

open Json Session

namespace Routes

open Output

variable {s : Session} {source name : RawText} {beside : Option (List (RawText × Json))}

/-- What a well-typed body comes to before the compiler is asked for: a refusal, an answer without a
compilation, or the compilation of a source, whose report may go beside what else there is to tell. -/
inductive Demand
  | refused (status : Nat)
  | answered (told : Json)
  | asks (source name : RawText) (beside : Option (List (RawText × Json)))

/-- What is told of a generated contract on its own. -/
def contractReport (source : String) (unit : RawText) : List (RawText × Json) :=
  [("success", .bool true), ("sourceCode", .str source), ("sourceName", unit.json)]

/-- What is told of a written contract on its own. -/
def writtenReport (c : WrittenContract) : List (RawText × Json) :=
  ("success", .bool true) :: (c.members ++
    [(.formed "validation", .obj [("valid", .bool (Source.problems c.code).isEmpty),
      ("problems", .rawTexts (Source.problems c.code))])])

/-- A report as it is told, on its own or beside what else there is to tell. -/
def withReport : Option (List (RawText × Json)) → List (RawText × Json) → Json
  | none, report => .obj report
  | some response, report => .obj (putMembers response
      [("success", (report.lookup (.formed "success")).getD .null), ("compilation", .obj report)])

/-- An unknown family that is no Unicode text cannot be shown, which was not foreseen. -/
def GenerateBody.demand (b : GenerateBody) : Demand :=
  match Family.parse b.family with
  | .error f => .refused (if f.message.isFormed then 400 else 500)
  | .ok family =>
    match b.request family with
    | .error _ => .refused 422
    | .ok r =>
      let report := contractReport r.compose.source (sourceName r.contractName.text)
      if b.compile then .asks r.compose.source r.contractName.text (some report) else .answered (.obj report)

def CompileBody.demand (b : CompileBody) : Demand :=
  if Source.problems b.source.shown = [] then .asks b.source b.contractName none else .refused 422

/-- A written contract is compiled where that is asked for and its code passes the check. -/
def writtenDemand (compile : Bool) (c : WrittenContract) : Demand :=
  if compile = false then .answered (.obj (writtenReport c))
  else if Source.problems c.code = [] then .asks c.code (compiledName c) (some (writtenReport c))
  else .answered (withReport (some (writtenReport c)) (Failure.rejected (Source.problems c.code)).report)

/-- What asking the model comes to. -/
def modelOutcome (s : Session) (context : Context) : Except Fault (Option String) :=
  (context.data s.outside.limits.writing).bind fun _ =>
    if isOver s.settings.modelTimeout then .error .timedOut
    else (s.outside.replies.next.within s.settings.modelTimeout).bind textOfReply

/-- A reply that meets a limit of reading holds no contract either, but that was not foreseen. -/
def WriteBody.demand (s : Session) (b : WriteBody) : Demand :=
  let outcome := modelOutcome s (.value (objectOrNull b.context))
  match outcome.toOption.map (WrittenContract.ofReply s.outside.limits.reading) with
  | none | some (.error (.failure _)) => .refused 502
  | some (.error _) => .refused 500
  | some (.ok c) => writtenDemand b.compile c

/-- What there is to tell of a demand in the end, if the compiler is there and comes to an output where it is
asked. -/
inductive Told (s : Session) : Demand → Json → Prop
  | answered (v : Json) : Told s (.answered v) v
  | asked {source name : RawText} {beside : Option (List (RawText × Json))} {report : List (RawText × Json)} :
      s.Loads → report? (s.verdict source name) = some report →
      Told s (.asks source name beside) (withReport beside report)

/-- What the body of a response tells: whether all went well, in one place or in two that agree, and the
errors where it did not. -/
structure Tells (v : Json) (asked : Bool) (made : Prop) : Prop where
  success : ∃ b, v.get? "success" = some (.bool b) ∧ (b = true ↔ asked = false ∨ made)
  agrees : ∀ c, v.get? "compilation" = some c → c.get? "success" = v.get? "success"
  errors : v.get? "success" = some (.bool false) →
    ∃ e es, ((v.get? "compilation").getD v).get? "errors" = some (.arr (e :: es))

/-- Exactly which status tells of which outcome of a demand. -/
structure Answers (s : Session) (d : Demand) (asked : Bool) (r : Response) : Prop where
  unknown : r.status = 400 ↔ d = .refused 400
  rejected : r.status = 422 ↔ d = .refused 422
  unusable : r.status = 502 ↔ d = .refused 502
  unavailable : r.status = 503 ↔ ∃ source name beside, d = .asks source name beside ∧ ¬s.Loads
  late : r.status = 504 ↔ ∃ source name beside, d = .asks source name beside ∧ s.Loads ∧
    (isOver s.settings.compileTimeout = true ∨
      (∃ found, s.catalog.imported [(sourceName name, source)] = .ok found) ∧ s.isLate = true)
  unforeseen : r.status = 500 ↔ d = .refused 500 ∨
    (∃ source name beside f, d = .asks source name beside ∧ s.Loads ∧
      isOver s.settings.compileTimeout = false ∧ s.catalog.imported [(sourceName name, source)] = .error f) ∨
    ∃ v, Told s d v ∧ isSendable (sent v) = false
  otherwise : r.status ∈ [200, 400, 422, 500, 502, 503, 504]
  body : r.status = 200 → ∃ v, Told s d v ∧ r.content = .json (sent v) ∧
    Tells (sent v) asked (∃ source name beside a, d = .asks source name beside ∧ s.verdict source name = .ok a)

variable {d : Demand} {asked : Bool} {r : Response}

@[simp]
theorem told_refused {n : Nat} {v : Json} : ¬Told s (.refused n) v := nofun

@[simp]
theorem told_answered {v w : Json} : Told s (.answered v) w ↔ w = v := by
  constructor
  · rintro ⟨⟩
    rfl
  · rintro rfl
    exact .answered w

@[simp]
theorem told_asks {v : Json} : Told s (.asks source name beside) v ↔
    s.Loads ∧ ∃ report, report? (s.verdict source name) = some report ∧ v = withReport beside report := by
  constructor
  · rintro ⟨⟩
    exact ⟨‹_›, _, ‹_›, rfl⟩
  · rintro ⟨hloads, report, hreport, rfl⟩
    exact .asked hloads hreport

theorem answers_refused {n : Nat} (hn : n ∈ [400, 422, 500, 502]) (hr : r.status = n) :
    Answers s (.refused n) asked r := by
  simp only [List.mem_cons, List.not_mem_nil, or_false] at hn
  rcases hn with rfl | rfl | rfl | rfl <;> constructor <;> simp [hr]

theorem respond_of_not_sendable {status : Nat} {v : Json} (h : isSendable (sent v) = false) :
    respond status v = unexpected := if_neg (by simp [h])

theorem answers_answered {v : Json} (hv : Tells (sent v) asked False) :
    Answers s (.answered v) asked (respond 200 v) := by
  cases hsend : isSendable (sent v) with
  | true =>
    have hr : respond 200 v = ⟨200, .json (sent v)⟩ := if_pos hsend
    rw [hr]
    constructor <;> simp [hsend]
    exact hv
  | false =>
    rw [respond_of_not_sendable hsend, unexpected]
    constructor <;> simp [hsend]

/-- What a compilation adds to a response where it comes to an output: whether it made an artifact, and
the errors if it did not. -/
structure IsReport (ms : List (RawText × Json)) (made : Bool) : Prop where
  success : ms.lookup (.formed "success") = some (.bool made)
  plain : ms.lookup (.formed "compilation") = none
  errors : made = false → ∃ e es, ms.lookup (.formed "errors") = some (.arr (e :: es))

theorem isReport_artifact (a : Artifact) : IsReport a.report true := ⟨rfl, rfl, nofun⟩

theorem isReport_failure {f : Failure} (hdetails : f.details ≠ []) : IsReport f.report false := by
  obtain ⟨e, es, hes⟩ := List.exists_cons_of_ne_nil hdetails
  refine ⟨rfl, ?_, fun _ => ⟨e, es, ?_⟩⟩
  · cases f <;> rfl
  · rw [← hes]
    rfl

/-- Nothing that a report is known by is kept out of responses. -/
theorem IsReport.sent {ms : List (RawText × Json)} {made : Bool} (h : IsReport ms made) :
    IsReport (sentMembers ms) made := by
  refine ⟨?_, ?_, fun hfailed => ?_⟩
  · rw [lookup_sentMembers rfl, h.success]
    rfl
  · rw [lookup_sentMembers rfl, h.plain]
    rfl
  · obtain ⟨e, es, herrors⟩ := h.errors hfailed
    refine ⟨Routes.sent e, sentItems es, ?_⟩
    rw [lookup_sentMembers rfl, herrors]
    rfl

/-- What a response makes of an accepted compilation. -/
inductive Reported (s : Session) (source name : RawText) : Except Response (List (RawText × Json)) → Prop
  | unavailable {r : Response} : ¬s.Loads → r.status = 503 → Reported s source name (.error r)
  | elapsed {r : Response} : s.Loads → isOver s.settings.compileTimeout = true → r.status = 504 →
      Reported s source name (.error r)
  | lost {r : Response} (f : Fault) : s.Loads → isOver s.settings.compileTimeout = false →
      s.catalog.imported [(sourceName name, source)] = .error f → r.status = 500 →
      Reported s source name (.error r)
  | late {r : Response} (found : List (RawText × RawText)) : s.Loads →
      isOver s.settings.compileTimeout = false →
      s.catalog.imported [(sourceName name, source)] = .ok found → s.isLate = true → r.status = 504 →
      Reported s source name (.error r)
  | concluded {ms : List (RawText × Json)} (made : Bool) (found : List (RawText × RawText)) : s.Loads →
      isOver s.settings.compileTimeout = false →
      s.catalog.imported [(sourceName name, source)] = .ok found → s.isLate = false →
      report? (s.verdict source name) = some ms → (made = true ↔ ∃ a, s.verdict source name = .ok a) →
      IsReport ms made → Reported s source name (.ok ms)

theorem fst_bind {α β : Type} (x : StateM Session α) (f : α → StateM Session β) (s : Session) :
    ((x >>= f) s).1 = (f (x s).1 (x s).2).1 := rfl

theorem respond_of_formed {status : Nat} {message : RawText} (h : message.isFormed = true) :
    (refuse status message).status = status := by
  refine congrArg Response.status (respond_of_sendable ?_)
  simp [isSendable, haveSendable, h]

theorem status_refuse (status : Nat) (message : String) : (refuse status message).status = status :=
  respond_of_formed rfl

/-- The verdict on an output that cannot be looked up is a fault that no report is made of. -/
theorem report?_lost {f : Fault} (hover : isOver s.settings.compileTimeout = false)
    (hlost : s.catalog.imported [(sourceName name, source)] = .error f) : report? (s.verdict source name) = none := by
  rw [verdict, if_neg (by simp [hover]), hlost]
  rcases Catalog.imported_error hlost with rfl | rfl | rfl <;> rfl

theorem report?_stopped (hover : isOver s.settings.compileTimeout = true ∨
      (∃ found, s.catalog.imported [(sourceName name, source)] = .ok found) ∧ s.isLate = true) :
    report? (s.verdict source name) = none := by
  unfold verdict
  rcases hover with hover | ⟨⟨found, hfound⟩, hlate⟩
  · rw [if_pos hover]
    rfl
  · split
    · rfl
    · rw [hfound, within_upcoming, hlate]
      rfl

theorem reported_compiled {work : Job Artifact} {s' : Session}
    (h : Settles s source name (work.run s').1) : Reported s source name (compiled work s').1 := by
  unfold compiled
  rw [fst_bind]
  generalize (work.run s').1 = o at h
  cases h with
  | unavailable reason hnone => exact .unavailable hnone (status_refuse _ _)
  | elapsed hloads hover => exact .elapsed hloads hover rfl
  | late found hloads hover hfound hlate => exact .late found hloads hover hfound hlate rfl
  | lost f hloads hover hlost =>
    rcases Catalog.imported_error hlost with rfl | rfl | rfl <;> exact .lost _ hloads hover hlost rfl
  | concluded found hloads hover hfound hlate hverdict ho =>
    cases ho with
    | made a =>
      exact .concluded true found hloads hover hfound hlate (by rw [hverdict]; rfl) (by simp [hverdict])
        (isReport_artifact a)
    | diagnosed errors warnings hne =>
      exact .concluded false found hloads hover hfound hlate (by rw [hverdict]; rfl) (by simp [hverdict])
        (isReport_failure hne)
    | notFound reason =>
      exact .concluded false found hloads hover hfound hlate (by rw [hverdict]; rfl) (by simp [hverdict])
        (isReport_failure (List.cons_ne_nil _ []))

/-- A report is found again in what is sent, as a whole or in one place. -/
theorem get?_withReport {ms : List (RawText × Json)} {made : Bool} (h : IsReport ms made)
    (beside : Option (List (RawText × Json))) :
    (sent (withReport beside ms)).get? "success" = some (.bool made) ∧
      (sent (withReport beside ms) = .obj (sentMembers ms) ∨
        (sent (withReport beside ms)).get? "compilation" = some (.obj (sentMembers ms))) := by
  cases beside with
  | none => exact ⟨h.sent.success, .inl rfl⟩
  | some response =>
    rw [get?_sent rfl, get?_sent rfl]
    dsimp only [withReport]
    rw [h.success, Option.getD_some]
    refine ⟨?_, .inr ?_⟩
    · have hget : (Json.obj (putMembers response [("success", .bool made), ("compilation", .obj ms)])).get?
          "success" = some (.bool made) :=
        (lookup_putMember_of_ne (by simp) _ _).trans (lookup_putMember_self _ _ _)
      rw [hget]
      rfl
    · have hget : (Json.obj (putMembers response [("success", .bool made), ("compilation", .obj ms)])).get?
          "compilation" = some (.obj ms) := lookup_putMember_self _ _ _
      rw [hget]
      rfl

theorem tells_withReport {ms : List (RawText × Json)} {made : Bool} {P : Prop} (h : IsReport ms made)
    (beside : Option (List (RawText × Json))) (hP : made = true ↔ asked = false ∨ P) :
    Tells (sent (withReport beside ms)) asked P := by
  obtain ⟨hsuccess, hplace⟩ := get?_withReport h beside
  have hreport := h.sent
  refine ⟨⟨made, hsuccess, hP⟩, fun c hc => ?_, fun hfalse => ?_⟩
  · rcases hplace with hwhole | hplace
    · rw [hwhole] at hc
      exact nomatch hreport.plain.symm.trans hc
    · rw [hplace] at hc
      cases hc
      exact hreport.success.trans hsuccess.symm
  · rw [hsuccess] at hfalse
    obtain ⟨e, es, herrors⟩ := hreport.errors (by simpa using hfalse)
    refine ⟨e, es, ?_⟩
    rcases hplace with hwhole | hplace
    · have hplain : (Json.obj (sentMembers ms)).get? "compilation" = none := hreport.plain
      rw [hwhole, hplain]
      exact herrors
    · rw [hplace]
      exact herrors

theorem answers_reported (beside : Option (List (RawText × Json)))
    (x : Except Response (List (RawText × Json))) : Reported s source name x →
    Answers s (.asks source name beside) true (match x with
      | .ok ms => respond 200 (withReport beside ms)
      | .error r => r) := by
  intro h
  cases h with
  | unavailable hnone hr => constructor <;> simp [hr, hnone]
  | elapsed hloads hover hr =>
    have hnone : report? (s.verdict source name) = none := report?_stopped (.inl hover)
    constructor <;> simp [hr, hloads, hover, hnone]
  | lost f hloads hover hlost hr =>
    have hnone := report?_lost hover hlost
    constructor <;> simp [hr, hloads, hover, hlost]
  | late found hloads hover hfound hlate hr =>
    have hnone := report?_stopped (.inr ⟨⟨found, hfound⟩, hlate⟩)
    constructor <;> simp [hr, hloads, hover, hfound, hlate, hnone]
  | @concluded ms made found hloads hover hfound hlate hverdict hmade hreport =>
    dsimp only
    cases hsend : isSendable (sent (withReport beside ms)) with
    | true =>
      have hr : respond 200 (withReport beside ms) = ⟨200, .json (sent (withReport beside ms))⟩ := if_pos hsend
      rw [hr]
      constructor <;> simp [hloads, hover, hfound, hlate, hverdict, hsend]
      exact tells_withReport hreport beside (by simp [hmade])
    | false =>
      rw [respond_of_not_sendable hsend, unexpected]
      constructor <;> simp [hloads, hover, hfound, hlate, hverdict, hsend]

theorem status_unprocessable {problems : List RawText} (h : ∀ p ∈ problems, p.isFormed = true) :
    (unprocessable problems).status = 422 := by
  refine congrArg Response.status (respond_of_sendable ?_)
  simp [isSendable, haveSendable, isSendable_rawTexts h]

theorem isFormed_requestProblems (r : Rejection) : ∀ p ∈ requestProblems r, p.isFormed = true := by
  intro p hp
  obtain ⟨problem, -, rfl⟩ := List.mem_map.1 hp
  rfl

theorem tells_success {ms : List (RawText × Json)} (hsuccess : ms.lookup (.formed "success") = some (.bool true))
    (hplain : ms.lookup (.formed "compilation") = none) : Tells (sent (.obj ms)) false False := by
  have hsuccess : (sent (.obj ms)).get? "success" = some (.bool true) := by
    rw [get?_sent rfl, show (Json.obj ms).get? "success" = _ from hsuccess]
    rfl
  refine ⟨⟨true, hsuccess, by simp⟩, fun c hc => ?_, fun hfalse => ?_⟩
  · rw [get?_sent rfl, show (Json.obj ms).get? "compilation" = none from hplain] at hc
    cases hc
  · rw [hsuccess] at hfalse
    cases hfalse

/-- The response to a compilation holds the report of what it came to, if it came to an output. -/
theorem answers_compiled {work : Job Artifact} {s' : Session} (h : Settles s source name (work.run s').1)
    (beside : Option (List (RawText × Json)))
    {f : Except Response (List (RawText × Json)) → StateM Session Response}
    (hf : ∀ x s, (f x s).1 = match x with
      | .ok ms => respond 200 (withReport beside ms)
      | .error r => r) :
    Answers s (.asks source name beside) true ((compiled work >>= f) s').1 := by
  rw [fst_bind, hf]
  exact answers_reported beside _ (reported_compiled h)

theorem answers_accepted (hfree : s.loader.Free) (hdocs : s.KeepsToDocs) {b : GenerateBody} {r : Request}
    (haccepted : acceptedRequest b = .ok r) :
    let report := contractReport r.compose.source (sourceName r.contractName.text)
    Answers s (if b.compile then .asks r.compose.source r.contractName.text (some report) else .answered (.obj report))
      b.compile (generate b s).1 := by
  intro report
  obtain ⟨s', huntouched, hrun⟩ := untouched_generate r s
  unfold generate
  rw [haccepted]
  dsimp only
  rw [fst_bind, hrun]
  dsimp only
  cases b.compile with
  | false =>
    rw [if_neg (by decide), if_neg (by decide)]
    exact answers_answered (tells_success rfl rfl)
  | true =>
    rw [if_pos rfl, if_pos rfl]
    have hsettles := settles_build (huntouched.free hfree) (huntouched.keepsToDocs hdocs) r
    exact answers_compiled (huntouched.settles hsettles) (some report) fun x s => by cases x <;> rfl

theorem status_refuse_unknown (f : Failure) :
    (refuse 400 f.message).status = if f.message.isFormed then 400 else 500 := by
  split
  next h => exact respond_of_formed h
  next h =>
    have hsent : sent (.obj [("detail", f.message.json)]) = .obj [("detail", f.message.json)] := by
      cases f.message <;> rfl
    refine congrArg Response.status (respond_of_not_sendable ?_)
    rw [hsent]
    simpa [isSendable, haveSendable] using h

theorem answers_generate (hfree : s.loader.Free) (hdocs : s.KeepsToDocs) (b : GenerateBody) :
    Answers s b.demand b.compile (generate b s).1 := by
  unfold GenerateBody.demand
  cases hfamily : Family.parse b.family with
  | error f =>
    have haccepted : acceptedRequest b = .error (refuse 400 f.message) := by
      rw [acceptedRequest, hfamily]
    unfold generate
    rw [haccepted]
    refine answers_refused ?_ (status_refuse_unknown f)
    split <;> simp
  | ok family =>
    have haccepted : acceptedRequest b = (b.request family).mapError fun r =>
        unprocessable (requestProblems r) := by
      rw [acceptedRequest, hfamily]
    dsimp only
    cases hrequest : b.request family with
    | error rejection =>
      unfold generate
      rw [haccepted, hrequest]
      exact answers_refused (by simp) (status_unprocessable (isFormed_requestProblems rejection))
    | ok request =>
      rw [hrequest] at haccepted
      exact answers_accepted hfree hdocs haccepted

theorem answers_compileSource (hfree : s.loader.Free) (hdocs : s.KeepsToDocs) (b : CompileBody) :
    Answers s b.demand true (compileSource b s).1 := by
  unfold CompileBody.demand
  cases hproblems : Source.problems b.source.shown with
  | nil =>
    rw [if_pos rfl]
    exact answers_compiled (settles_compileChecked hfree hdocs hproblems b.contractName) none
      fun x s => by cases x <;> rfl
  | cons p ps =>
    rw [if_neg (List.cons_ne_nil p ps)]
    refine answers_refused (by simp) ?_
    unfold compileSource compileChecked
    rw [hproblems]
    exact status_unprocessable (hproblems ▸ isFormed_of_mem_problems)

theorem withCompilation_eq (response report : List (RawText × Json)) :
    withCompilation response report = respond 200 (withReport (some response) report) := rfl

theorem answers_written (hfree : s.loader.Free) (hdocs : s.KeepsToDocs) (b : WriteBody) (c : WrittenContract) :
    Answers s (writtenDemand b.compile c) b.compile (written b c s).1 := by
  unfold written writtenDemand
  simp only [withCompilation_eq]
  rw [← writtenReport]
  cases b.compile with
  | false =>
    rw [if_pos rfl]
    exact answers_answered (tells_success rfl rfl)
  | true =>
    rw [if_neg (by decide : ¬true = false), if_neg (by decide : ¬(!true) = true)]
    by_cases hproblems : Source.problems c.code = []
    · rw [if_pos hproblems, if_neg (by simp [hproblems])]
      have hpasses : Source.problems (RawText.formed c.code).shown = [] := hproblems
      have hsettles := settles_compileChecked hfree hdocs hpasses (compiledName c)
      exact answers_compiled hsettles (some (writtenReport c)) fun x s => by cases x <;> rfl
    · rw [if_neg hproblems, if_pos (by simpa using hproblems)]
      have hdetails : (Failure.rejected (Source.problems c.code)).details ≠ [] := by
        simpa [Failure.details] using hproblems
      exact answers_answered (tells_withReport (isReport_failure hdetails) (some (writtenReport c)) (by simp))

/-- What the model is asked for comes of the session as it was, whatever has been noted since. -/
theorem reply_contractReply (prompt : RawText) (context : Context) (journal : Journal) :
    let answered := (contractReply s.settings prompt context).run { s with journal := journal }
    answered.1 = modelOutcome s context ∧ answered.2.outside.limits = s.outside.limits := by
  unfold contractReply modelOutcome
  rw [run_get_bind]
  dsimp only
  cases context.data s.outside.limits.writing with
  | error f => exact ⟨rfl, rfl⟩
  | ok known =>
    rw [run_ok_bind]
    unfold ask
    split
    · exact ⟨rfl, rfl⟩
    · exact ⟨rfl, rfl⟩

theorem reply_writeContract (hmodel : s.settings.modelAvailable = true) (prompt : RawText) (context : Context) :
    ((writeContract prompt context none s.settings).run s).1 = match modelOutcome s context with
      | .error f => .error (.failure (.notInterpreted ("Contract generation failed: " ++ f.message)))
      | .ok reply => WrittenContract.ofReply s.outside.limits.reading reply := by
  unfold writeContract clientFor
  dsimp only
  rw [if_pos hmodel]
  -- the key of the new client has been noted by the time the model is asked
  let noted : Journal := { s.journal with keys := s.journal.keys ++ [s.settings.apiKey.getD ""] }
  change ((tryCatch (contractReply s.settings prompt context) _ >>= _).run { s with journal := noted }).1 = _
  obtain ⟨houtcome, hlimits⟩ := reply_contractReply (s := s) prompt context noted
  rw [run_bind, run_tryCatch, ← houtcome]
  revert hlimits
  rcases (contractReply s.settings prompt context).run { s with journal := noted } with ⟨f | reply, s'⟩
  · exact fun _ => rfl
  · intro hlimits
    dsimp only
    rw [run_get_bind, hlimits]
    rfl

theorem WriteBody.demand_of_reply (hmodel : s.settings.modelAvailable = true) (b : WriteBody) :
    b.demand s = match ((writeContract b.prompt (.value (objectOrNull b.context)) none s.settings).run s).1 with
      | .error (.failure _) => .refused 502
      | .error _ => .refused 500
      | .ok c => writtenDemand b.compile c := by
  rw [reply_writeContract hmodel, demand]
  cases modelOutcome s (.value (objectOrNull b.context)) with
  | error f => rfl
  | ok reply =>
    dsimp only [Except.toOption, Option.map_some]
    rcases WrittenContract.ofReply s.outside.limits.reading reply with f | c
    · cases f <;> rfl
    · rfl

theorem isFormed_message_modelOutcome {context : Context} {f : Fault} (h : modelOutcome s context = .error f) :
    f.message.isFormed = true := by
  unfold modelOutcome at h
  cases hdata : context.data s.outside.limits.writing with
  | error f' =>
    rw [hdata] at h
    cases h
    unfold Context.data at hdata
    split at hdata
    · cases hdata
      rfl
    · split at hdata <;> cases hdata
      rfl
  | ok known =>
    rw [hdata] at h
    dsimp only [Except.bind] at h
    split at h
    · cases h
      rfl
    · cases hwithin : s.outside.replies.next.within s.settings.modelTimeout with
      | error f' =>
        rw [hwithin] at h
        cases h
        unfold Arrival.within at hwithin
        split at hwithin <;> cases hwithin
        rfl
      | ok reply =>
        rw [hwithin] at h
        cases reply with
        | text reply => cases h
        | failed reason =>
          cases h
          rfl

/-- Where the model writes no contract, the reason that is told is Unicode text, unless reading comes to a limit. -/
theorem failsOnly_writeContract (hmodel : s.settings.modelAvailable = true) (prompt : RawText)
    (context : Context) :
    FailsOnly
      (fun f => (∃ reason : RawText, reason.isFormed = true ∧ f = .failure (.notInterpreted reason)) ∨ f.IsLimit)
      ((writeContract prompt context none s.settings).run s).1 := by
  rw [reply_writeContract hmodel]
  cases houtcome : modelOutcome s context with
  | error f =>
    refine .error (.inl ⟨_, ?_, rfl⟩)
    rw [RawText.isFormed_append, isFormed_message_modelOutcome houtcome]
    rfl
  | ok reply =>
    intro f hf
    rcases Tools.failsOnly_ofReply _ reply f hf with ⟨reason, rfl⟩ | hlimit
    · exact .inl ⟨reason, rfl, rfl⟩
    · exact .inr hlimit

theorem told_of_untouched {s' : Session} (h : Untouched s s') {v : Json} : Told s' d v ↔ Told s d v := by
  rw [h.eq]
  constructor
  · intro htold
    cases htold with
    | answered => exact .answered v
    | asked hloads hreport => exact .asked hloads hreport
  · intro htold
    cases htold with
    | answered => exact .answered v
    | asked hloads hreport => exact .asked hloads hreport

theorem answers_of_untouched {s' : Session} (h : Untouched s s') (ha : Answers s' d asked r) :
    Answers s d asked r := by
  have hunforeseen := ha.unforeseen
  have hbody := ha.body
  simp only [told_of_untouched h] at hunforeseen hbody
  rw [h.eq] at ha hunforeseen hbody
  exact ⟨ha.unknown, ha.rejected, ha.unusable, ha.unavailable, ha.late, hunforeseen, ha.otherwise, hbody⟩

theorem answers_write (hmodel : s.settings.modelAvailable = true) (hfree : s.loader.Free)
    (hdocs : s.KeepsToDocs) (b : WriteBody) : Answers s (b.demand s) b.compile (write b s).1 := by
  have haloof := aloof_writeContract b.prompt (.value (objectOrNull b.context)) none s.settings s
  have hfails := failsOnly_writeContract hmodel b.prompt (.value (objectOrNull b.context))
  rw [b.demand_of_reply hmodel]
  change Answers s _ b.compile ((if (!s.settings.modelAvailable) = true then _ else
    (writeContract b.prompt (.value (objectOrNull b.context)) none s.settings).run >>= _ : StateM Session Response) s).1
  rw [hmodel, if_neg (by decide), fst_bind]
  revert haloof hfails
  rcases (writeContract b.prompt (.value (objectOrNull b.context)) none s.settings).run s with ⟨f | c, s'⟩
  · intro _ hfails
    rcases hfails f rfl with ⟨reason, hreason, rfl⟩ | ⟨reason, rfl⟩ | ⟨reason, rfl⟩
    · exact answers_refused (by simp) (respond_of_formed hreason)
    · exact answers_refused (by simp) rfl
    · exact answers_refused (by simp) rfl
  · intro haloof _
    exact answers_of_untouched haloof (answers_written (haloof.free hfree) (haloof.keepsToDocs hdocs) b c)

theorem handle_of_path {method target path : String} (h : pathOf method target = some path) (b : Body) :
    handle method target b = handleAt path b := by
  obtain ⟨hnamed, hmethod⟩ := Option.filter_eq_some_iff.1 h
  unfold handle
  rw [hnamed]
  dsimp only
  rw [if_neg (by simpa using hmethod)]

theorem get_bind {α : Type} (f : Session → StateM Session α) (s : Session) :
    ((get : StateM Session Session) >>= f) s = f s s := rfl

theorem checked_of_ok {α : Type} {body : Body} {record : List (RawText × Json) → Checked α} {b : α}
    (h : body.check s.outside.limits.reading record = .ok b) (f : α → StateM Session Response) :
    checked body record f s = f b s := by
  unfold checked
  rw [get_bind, h]

end Routes

end Solwright
