import Mathlib.Tactic.SplitIfs
import Solwright.Proofs.Compiler.Shape
import Solwright.Proofs.Json.Members
import Solwright.Session

/-! What reading an output comes to. An error among the diagnostics decides before all else; then the
names of the contracts compiled from the source unit do. -/

namespace Solwright.Output

open Json

def diagnosticsIn (v : Json) : List Json :=
  match v.get? "errors" with
  | some (.arr ds) => ds
  | _ => []

def textAt? (v : Json) (key : String) : Option String :=
  match v.get? key with
  | some (.str s) => some s
  | _ => none

/-- The message of a diagnostic: the formatted one, the plain one where that is missing or empty, and
an empty one where there is neither. -/
def wording (d : Json) : String :=
  (((textAt? d "formattedMessage").filter (· ≠ "")).or (textAt? d "message")).getD ""

/-- The messages of the diagnostics of a severity, in order. -/
def messagesIn (v : Json) (severity : String) : List Json :=
  ((diagnosticsIn v).filter (textAt? · "severity" == some severity)).map fun d => .str (wording d)

def HasError (v : Json) : Prop := ∃ d ∈ diagnosticsIn v, textAt? d "severity" = some "error"

/-- The contracts compiled from a source unit, by name. -/
def contractsIn (v : Json) (unit : RawText) : List (RawText × Json) :=
  ((((v.get? "contracts").getD .null).get? unit).getD .null).members

/-- The names of the contracts compiled from a source unit. -/
def compiledIn (v : Json) (unit : RawText) : List RawText :=
  ((((v.get? "contracts").getD .null).get? unit).getD .null).members.map (·.1)

theorem textAt?_cases {v : Json} {key : String} (h : v.MayHold key IsText) :
    (v.get? key).getD .null = .null ∧ textAt? v key = none ∨
      ∃ s, (v.get? key).getD .null = .str s ∧ textAt? v key = some s := by
  unfold textAt?
  cases hget : v.get? key with
  | none => exact .inl ⟨rfl, rfl⟩
  | some w =>
    rcases h w hget with rfl | ⟨s, rfl⟩
    · exact .inl ⟨rfl, rfl⟩
    · exact .inr ⟨s, rfl, rfl⟩

/-- The first text that counts as yes. -/
theorem wording_eq {d : Json} (h : IsDiagnostic d) : Json.str (wording d) =
    (let formatted := (d.get? "formattedMessage").getD .null
     let plain := (d.get? "message").getD .null
     if formatted.isTrue then formatted else if plain.isTrue then plain else .str "") := by
  have hnull : Json.null.isTrue = false := rfl
  have hstr : ∀ s, (Json.str s).isTrue = (s != "") := fun _ => rfl
  unfold wording
  rcases textAt?_cases h.formatted with ⟨hf, hft⟩ | ⟨f, hf, hft⟩ <;>
    rcases textAt?_cases h.plain with ⟨hp, hpt⟩ | ⟨p, hp, hpt⟩ <;>
    rw [hf, hp, hft, hpt]
  · rfl
  · by_cases hne : p = "" <;> simp [hnull, hstr, hne]
  · by_cases hne : f = "" <;> simp [hnull, hstr, hne, Option.filter]
  · by_cases hne : f = "" <;> by_cases hne' : p = "" <;> simp [hstr, hne, hne', Option.filter]

theorem diagnostic_ofJson {d : Json} (h : IsDiagnostic d) :
    Diagnostic.ofJson d = .ok ⟨textAt? d "severity", .str (wording d)⟩ := by
  rw [wording_eq h]
  unfold Diagnostic.ofJson textAt?
  simp only [h.object.member]
  cases d.get? "severity" with
  | none => rfl
  | some w => cases w <;> rfl

theorem mapM_ok {α β : Type} {f : α → Except Fault β} {g : α → β} {xs : List α}
    (h : ∀ x ∈ xs, f x = .ok (g x)) : xs.mapM f = .ok (xs.map g) := by
  induction xs with
  | nil => rfl
  | cons x xs ih =>
    rw [List.mapM_cons, h x List.mem_cons_self, ih fun y hy => h y (List.mem_cons_of_mem x hy)]
    rfl

/-- An output as it is read. -/
theorem IsOutput.ofJson_eq {v : Json} (h : IsOutput v) : ofJson v = .ok
    ⟨(diagnosticsIn v).map fun d => ⟨textAt? d "severity", .str (wording d)⟩,
      (v.get? "contracts").getD .null⟩ := by
  have herrors : ((v.get? "errors").getD .null).elementsOrNone = .ok (diagnosticsIn v) ∧
      ∀ d ∈ diagnosticsIn v, IsDiagnostic d := by
    unfold diagnosticsIn
    cases hget : v.get? "errors" with
    | none => exact ⟨rfl, by simp⟩
    | some w =>
      rcases h.errors w hget with rfl | ⟨ds, rfl, hds⟩
      · exact ⟨rfl, by simp⟩
      · exact ⟨elementsOrNone_arr ds, hds⟩
  unfold ofJson
  rw [h.object.member, h.object.member]
  dsimp only [bind, Except.bind]
  rw [herrors.1]
  dsimp only
  rw [mapM_ok fun d hd => diagnostic_ofJson (herrors.2 d hd)]
  rfl

/-- The messages of an output as it is read are those that stand in it. -/
theorem messages_eq {v contracts : Json} (severity : String) :
    messages ⟨(diagnosticsIn v).map fun d => ⟨textAt? d "severity", .str (wording d)⟩, contracts⟩ severity =
      messagesIn v severity := by
  simp only [messages, messagesIn, List.filter_map, List.map_map]
  rfl

theorem hasError_iff {v : Json} : HasError v ↔ messagesIn v "error" ≠ [] := by
  simp [HasError, messagesIn, List.filter_eq_nil_iff]

theorem members_of_not_isTrue {v : Json} (h : v.isTrue ≠ true) : v.members = [] := by
  cases v with
  | obj ms =>
    cases ms with
    | nil => rfl
    | cons m ms => exact absurd rfl h
  | _ => rfl

/-- The contracts compiled from a source unit are those that stand under its name. -/
theorem compiled_eq_ok {o : Output} {unit : RawText} {ms : List (RawText × Json)} (h : o.compiled unit = .ok ms) :
    ms = ((o.contracts.get? unit).getD .null).members := by
  simp only [compiled, bind_eq_ok, member_eq_ok] at h
  obtain ⟨w, ⟨-, rfl⟩, hms⟩ := h
  rw [get?_orObject] at hms
  split at hms
  next heq =>
    cases hms
    rw [heq]
    rfl
  next =>
    split at hms
    · cases hms
    next hfalse =>
      cases hms
      exact (members_of_not_isTrue hfalse).symm

theorem contracts_of_ofJson {v : Json} {o : Output} (h : ofJson v = .ok o) :
    o.contracts = (v.get? "contracts").getD .null := by
  unfold ofJson at h
  simp only [bind, bind_eq_ok, member_eq_ok] at h
  obtain ⟨_, -, _, -, ds, -, _, ⟨-, rfl⟩, h⟩ := h
  cases h
  rfl

/-- In an output of the documented shape the contracts of every unit can be found. -/
theorem IsOutput.compiled_eq {v : Json} (h : IsOutput v) (diagnostics : List Diagnostic) (unit : RawText) :
    compiled ⟨diagnostics, (v.get? "contracts").getD .null⟩ unit = .ok (contractsIn v unit) := by
  have hobject : (((v.get? "contracts").getD .null).orObject).IsObject := by
    rcases h.contracts.getD with hnull | ⟨⟨ms, hms⟩, -⟩
    · exact ⟨[], by rw [hnull]; rfl⟩
    · exact ⟨ms, by rw [hms, orObject_obj]⟩
  unfold compiled contractsIn
  rw [hobject.member, get?_orObject]
  dsimp only [Except.bind]
  cases hunit : ((v.get? "contracts").getD .null).get? unit with
  | none => rfl
  | some w =>
    have hmem := mem_of_lookup hunit
    rcases h.contracts.getD with hnull | ⟨-, hunits⟩
    · rw [hnull] at hmem
      cases hmem
    · rcases hunits _ hmem with hw | ⟨⟨ms, hw⟩, -⟩ <;> dsimp only at hw <;> rw [hw] <;> rfl

theorem exists_unit {v : Json} {unit : RawText} {c : RawText × Json} (hc : c ∈ contractsIn v unit) :
    ∃ u ∈ ((v.get? "contracts").getD .null).members, c ∈ u.2.members := by
  unfold contractsIn at hc
  cases hunit : ((v.get? "contracts").getD .null).get? unit with
  | none =>
    rw [hunit] at hc
    cases hc
  | some w =>
    rw [hunit] at hc
    exact ⟨_, mem_of_lookup hunit, hc⟩

theorem IsOutput.isEntry {v : Json} (h : IsOutput v) {unit : RawText} {c : RawText × Json}
    (hc : c ∈ contractsIn v unit) : IsEntry c.2 := by
  obtain ⟨u, hu, hmem⟩ := exists_unit hc
  rcases h.contracts.getD with hnull | ⟨-, hentries⟩
  · rw [hnull] at hu
    cases hu
  · rcases hentries u hu with hunit | ⟨-, hunit⟩
    · rw [hunit] at hmem
      cases hmem
    · exact hunit c hmem

/-- An artifact is drawn from the entry of its contract. -/
theorem readJson_eq_ok {v : Json} {unit name : RawText} {source : String} {strict : Bool} {a : Artifact}
    (h : (readJson v unit name strict source).1 = .ok a) :
    ∃ entry, (contractsIn v unit).lookup a.contractName = some entry ∧ IsDrawnFrom a entry := by
  unfold readJson at h
  split at h
  next o ho =>
    unfold read at h
    split_ifs at h
    split at h
    next => cases h
    next compiled hcompiled =>
    split at h
    next => cases h
    next chosen _ =>
      obtain ⟨hobject, hname, -, hdrawn⟩ := artifact_eq_ok h
      obtain rfl : compiled = contractsIn v unit := by
        rw [compiled_eq_ok hcompiled, contracts_of_ofJson ho]
        rfl
      subst hname
      cases hlookup : (contractsIn v unit).lookup a.contractName with
      | none =>
        rw [hlookup] at hobject
        obtain ⟨ms, hms⟩ := hobject
        cases hms
      | some entry =>
        rw [hlookup] at hdrawn
        exact ⟨entry, rfl, hdrawn⟩
  next => cases h

theorem lastDeclared_mem (source : String) {compiled : List RawText} (hne : compiled ≠ []) :
    lastDeclared source compiled ∈ compiled := by
  have hdeclared : ∀ d ∈ ((Source.declarations source.toList).map fun n => RawText.formed (String.ofList n)).filter
      compiled.contains, d ∈ compiled := fun d hd =>
    List.contains_iff_mem.1 (List.mem_filter.1 hd).2
  unfold lastDeclared
  dsimp only
  revert hdeclared
  generalize ((Source.declarations source.toList).map fun n => RawText.formed (String.ofList n)).filter
    compiled.contains = declared
  intro hdeclared
  cases hl : declared.getLast? with
  | none =>
    rw [List.getLast?_eq_some_getLast hne]
    exact List.getLast_mem hne
  | some d => exact hdeclared d (List.mem_of_getLast? hl)

/-- The contract that is chosen is one of those compiled; there is one unless the match has to be
exact and the name is not among them. -/
theorem choose_cases (unit name : RawText) (strict : Bool) (source : String) {compiled : List RawText}
    (hne : compiled ≠ []) :
    (∃ reason, choose unit name strict source compiled = .error (.contractNotFound reason)) ∧
        strict = true ∧ name ∉ compiled ∨
      (∃ chosen ∈ compiled, choose unit name strict source compiled = .ok chosen) ∧
        (strict = true → name ∈ compiled) := by
  unfold choose
  by_cases hname : name ∈ compiled
  · rw [if_pos (List.contains_iff_mem.2 hname)]
    exact .inr ⟨⟨name, hname, rfl⟩, fun _ => hname⟩
  · rw [if_neg (by simpa using hname)]
    cases strict with
    | true => exact .inl ⟨⟨_, rfl⟩, rfl, hname⟩
    | false => exact .inr ⟨⟨_, lastDeclared_mem source hne, rfl⟩, by simp⟩

theorem lookup_of_mem {ps : List (RawText × Json)} {key : RawText} (h : key ∈ ps.map (·.1)) :
    ∃ v, ps.lookup key = some v ∧ (key, v) ∈ ps := by
  have hsome : (ps.lookup key).isSome := by
    obtain ⟨p, hp, rfl⟩ := List.mem_map.1 h
    exact List.lookup_isSome_iff.2 ⟨p, hp, by simp⟩
  obtain ⟨v, hv⟩ := Option.isSome_iff_exists.1 hsome
  exact ⟨v, hv, mem_of_lookup hv⟩

/-- The three ways in which reading an output ends. -/
inductive Ends (v : Json) (unit name : RawText) (strict : Bool) : Except Fault Artifact → Prop
  | diagnosed : HasError v →
      Ends v unit name strict
        (.error (.failure (.diagnosed (messagesIn v "error") (messagesIn v "warning"))))
  | notFound (reason : RawText) : ¬HasError v →
      compiledIn v unit = [] ∨ strict = true ∧ name ∉ compiledIn v unit →
      Ends v unit name strict (.error (.failure (.contractNotFound reason)))
  | artifact (a : Artifact) : ¬HasError v → compiledIn v unit ≠ [] →
      (strict = true → name ∈ compiledIn v unit) → a.warnings = messagesIn v "warning" →
      (∃ entry, (a.contractName, entry) ∈ contractsIn v unit ∧
        artifact unit a.contractName (messagesIn v "warning") entry = .ok a) →
      Ends v unit name strict (.ok a)

theorem IsOutput.ends {v : Json} (h : IsOutput v) (unit name : RawText) (strict : Bool)
    (source : String) : Ends v unit name strict (readJson v unit name strict source).1 := by
  have hmembers : (contractsIn v unit).map (·.1) = compiledIn v unit := rfl
  rw [readJson, h.ofJson_eq]
  dsimp only [read, fatal, warnings]
  simp only [messages_eq, h.compiled_eq]
  by_cases herror : HasError v
  · have hne : (messagesIn v "error").isEmpty = false := by simpa using hasError_iff.1 herror
    simp only [hne]
    exact .diagnosed herror
  have hnone : (messagesIn v "error").isEmpty = true := by simpa [hasError_iff] using herror
  simp only [hnone, if_true, hmembers, select]
  by_cases hempty : compiledIn v unit = []
  · simp only [hempty, List.isEmpty_nil, if_true]
    exact .notFound _ herror (.inl hempty)
  rw [if_neg (by simpa using hempty)]
  rcases choose_cases unit name strict source hempty with
    ⟨⟨reason, hchoose⟩, hstrict⟩ | ⟨⟨chosen, hmem, hchoose⟩, hstrict⟩
  · simp only [hchoose]
    exact .notFound reason herror (.inr hstrict)
  · rw [← hmembers] at hmem
    obtain ⟨entry, hlookup, hentry⟩ := lookup_of_mem hmem
    obtain ⟨a, ha, hwarnings, hname, -⟩ := (h.isEntry hentry).artifact_ok unit chosen (messagesIn v "warning")
    simp only [hchoose, take, warnings, messages_eq]
    rw [hlookup, Option.getD_some, ha]
    exact .artifact a herror hempty hstrict hwarnings ⟨entry, by rw [hname]; exact hentry, by rw [hname]; exact ha⟩

variable {v : Json} {unit name : RawText} {strict : Bool} {outcome : Except Fault Artifact}

theorem Ends.diagnosed_iff (h : Ends v unit name strict outcome) :
    (∃ e w, outcome = .error (.failure (.diagnosed e w))) ↔ HasError v := by
  cases h with
  | diagnosed herror => exact ⟨fun _ => herror, fun _ => ⟨_, _, rfl⟩⟩
  | notFound reason hnone hname => exact ⟨fun ⟨e, w, he⟩ => (by cases he), fun herror => absurd herror hnone⟩
  | artifact a hnone => exact ⟨fun ⟨e, w, he⟩ => (by cases he), fun herror => absurd herror hnone⟩

theorem Ends.notFound_iff (h : Ends v unit name strict outcome) :
    (∃ reason, outcome = .error (.failure (.contractNotFound reason))) ↔
      ¬HasError v ∧ (compiledIn v unit = [] ∨ strict = true ∧ name ∉ compiledIn v unit) := by
  cases h with
  | diagnosed herror => exact ⟨fun ⟨r, hr⟩ => (by cases hr), fun hn => absurd herror hn.1⟩
  | notFound reason hnone hname => exact ⟨fun _ => ⟨hnone, hname⟩, fun _ => ⟨reason, rfl⟩⟩
  | artifact a hnone hne hstrict =>
    refine ⟨fun ⟨r, hr⟩ => (by cases hr), ?_⟩
    rintro ⟨-, hempty | ⟨hs, hname⟩⟩
    · exact absurd hempty hne
    · exact absurd (hstrict hs) hname

theorem Ends.artifact_iff (h : Ends v unit name strict outcome) :
    (∃ a, outcome = .ok a) ↔
      ¬HasError v ∧ compiledIn v unit ≠ [] ∧ (strict = true → name ∈ compiledIn v unit) := by
  cases h with
  | diagnosed herror => exact ⟨fun ⟨a, ha⟩ => (by cases ha), fun hn => absurd herror hn.1⟩
  | notFound reason hnone hname =>
    refine ⟨fun ⟨a, ha⟩ => (by cases ha), fun ⟨_, hne, hstrict⟩ => ?_⟩
    rcases hname with hempty | ⟨hs, hname⟩
    · exact absurd hempty hne
    · exact absurd (hstrict hs) hname
  | artifact a hnone hne hstrict => exact ⟨fun _ => ⟨hnone, hne, hstrict⟩, fun _ => ⟨a, rfl⟩⟩

/-- Diagnostics of the documented shape, an error among them. -/
def AreFatal (v : Json) : Prop :=
  ∃ ds, v = .arr ds ∧ (∀ d ∈ ds, IsDiagnostic d) ∧ ∃ d ∈ ds, textAt? d "severity" = some "error"

theorem isOutput_errors {ds : List Json} (h : ∀ d ∈ ds, IsDiagnostic d) :
    IsOutput (.obj [("errors", .arr ds)]) where
  object := ⟨_, rfl⟩
  errors w hw := by
    cases hw
    exact .inr ⟨ds, rfl, h⟩
  contracts w hw := by cases hw

theorem isOutput_contracts {unit : RawText} {contracts : List (RawText × Json)}
    (h : ∀ c ∈ contracts, IsEntry c.2) :
    IsOutput (.obj [("contracts", .obj [(unit, .obj contracts)])]) := by
  refine ⟨⟨_, rfl⟩, fun w hw => (by cases hw), ?_⟩
  rintro w ⟨⟩
  refine .inr ⟨⟨_, rfl⟩, fun u hu => .inr ?_⟩
  rw [List.mem_singleton.1 hu]
  exact ⟨⟨_, rfl⟩, h⟩

theorem isDiagnostic_message (severity message : String) :
    IsDiagnostic (.obj [("severity", .str severity), ("message", .str message)]) := by
  refine ⟨⟨_, rfl⟩, fun w hw => (by cases hw), fun w hw => ?_⟩
  cases hw
  exact .inr ⟨_, rfl⟩

/-- What a refusal of the compiler leaves has an error in it. -/
theorem documentOf_refused (message : String) {diagnostics : Json}
    (h : diagnostics.isTrue = true → AreFatal diagnostics) :
    ∃ w, Session.documentOf (.refused message diagnostics) = .ok w ∧ IsOutput w ∧ HasError w := by
  unfold Session.documentOf
  by_cases htrue : diagnostics.isTrue = true
  · obtain ⟨ds, rfl, hds, herror⟩ := h htrue
    exact ⟨_, if_pos htrue, isOutput_errors hds, herror⟩
  · refine ⟨_, if_neg htrue, isOutput_errors fun d hd => ?_, _, List.mem_singleton_self _, rfl⟩
    rw [List.mem_singleton.1 hd]
    exact isDiagnostic_message _ _

/-- Reading an output of the documented shape ends in one of three ways: as a failed compilation with
all errors and all warnings exactly if there is an error; else without a contract exactly if none was
compiled from the unit or the match has to be exact and the name is not among them; else with an
artifact and all warnings. What a refusal of the compiler leaves is always a failed compilation. -/
theorem reading_decided (hv : IsOutput v) (unit name : RawText) (strict : Bool) (source message : String)
    {diagnostics : Json} (hd : diagnostics.isTrue = true → AreFatal diagnostics) :
    let outcome := (readJson v unit name strict source).1
    ((∃ e w, outcome = .error (.failure (.diagnosed e w))) ↔ HasError v) ∧
    (∀ e w, outcome = .error (.failure (.diagnosed e w)) →
      e = messagesIn v "error" ∧ w = messagesIn v "warning") ∧
    ((∃ reason, outcome = .error (.failure (.contractNotFound reason))) ↔
      ¬HasError v ∧ (compiledIn v unit = [] ∨ strict = true ∧ name ∉ compiledIn v unit)) ∧
    ((∃ a, outcome = .ok a) ↔
      ¬HasError v ∧ compiledIn v unit ≠ [] ∧ (strict = true → name ∈ compiledIn v unit)) ∧
    (∀ a, outcome = .ok a → a.warnings = messagesIn v "warning") ∧
    ∃ w errors warnings, Session.documentOf (.refused message diagnostics) = .ok w ∧ errors ≠ [] ∧
      (readJson w unit name strict source).1 = .error (.failure (.diagnosed errors warnings)) := by
  intro outcome
  have hends : Ends v unit name strict outcome := hv.ends unit name strict source
  refine ⟨hends.diagnosed_iff, ?_, hends.notFound_iff, hends.artifact_iff, ?_, ?_⟩
  · intro e w he
    rw [he] at hends
    cases hends
    exact ⟨rfl, rfl⟩
  · intro a ha
    rw [ha] at hends
    cases hends
    assumption
  · obtain ⟨w, hdocument, hw, herror⟩ := documentOf_refused message hd
    obtain ⟨e, ws, hread⟩ := (hw.ends unit name strict source).diagnosed_iff.2 herror
    have hends := hw.ends unit name strict source
    rw [hread] at hends
    cases hends
    exact ⟨w, _, _, hdocument, hasError_iff.1 herror, hread⟩

theorem reading_decided_sparse :
    let entry := Json.obj [("abi", .null), ("evm", .obj [("bytecode", .null),
      ("gasEstimates", .obj [("creation", .obj [("codeDepositCost", .str "infinite")])])])]
    let unused := Json.obj [("severity", .str "warning"), ("formattedMessage", .str ""),
      ("message", .str "unused")]
    let v := Json.obj [("errors", .arr [unused, .obj [("severity", .str "info")]]),
      ("contracts", .obj [("A.sol", .obj [("A", entry)])])]
    let fatal := Json.arr [.obj [("severity", .str "error")]]
    IsOutput v ∧ AreFatal fatal ∧
      (∃ a, (readJson v "A.sol" "B" false "").1 = .ok a ∧ a.warnings = [.str "unused"]) ∧
      ∃ w errors warnings, Session.documentOf (.refused "" fatal) = .ok w ∧ errors ≠ [] ∧
        (readJson w "A.sol" "B" false "").1 = .error (.failure (.diagnosed errors warnings)) := by
  intro entry unused v fatal
  have hunused : IsDiagnostic unused :=
    ⟨⟨_, rfl⟩, fun w hw => .inr ⟨"", (Option.some.inj hw).symm⟩,
      fun w hw => .inr ⟨"unused", (Option.some.inj hw).symm⟩⟩
  have hinfo : ∀ severity, IsDiagnostic (.obj [("severity", .str severity)]) := fun severity =>
    ⟨⟨_, rfl⟩, fun w hw => (by cases hw), fun w hw => (by cases hw)⟩
  have hentry : IsEntry entry := by
    refine ⟨⟨_, rfl⟩, fun w hw => .inl (Option.some.inj hw).symm, fun w hw => ?_⟩
    cases hw
    refine .inr ⟨⟨_, rfl⟩, fun w hw => .inl (Option.some.inj hw).symm, fun w hw => (by cases hw), ?_⟩
    rintro w ⟨⟩
    refine .inr ⟨⟨_, rfl⟩, ?_⟩
    rintro w ⟨⟩
    refine .inr ⟨⟨_, rfl⟩, fun w hw => .inr (.inl ⟨"infinite", (Option.some.inj hw).symm⟩),
      fun w hw => (by cases hw)⟩
  have hv : IsOutput v := by
    refine ⟨⟨_, rfl⟩, ?_, ?_⟩
    · rintro w ⟨⟩
      exact .inr ⟨_, rfl, by simp [hunused, hinfo]⟩
    · rintro w ⟨⟩
      refine .inr ⟨⟨_, rfl⟩, fun u hu => .inr ⟨?_, ?_⟩⟩ <;> rw [List.mem_singleton.1 hu]
      · exact ⟨_, rfl⟩
      · simpa [members] using hentry
  have hfatal : AreFatal fatal := ⟨_, rfl, by simp [hinfo], _, List.mem_singleton_self _, rfl⟩
  obtain ⟨-, -, -, hartifact, hwarnings, hrefused⟩ :=
    reading_decided hv "A.sol" "B" false "" "" fun _ => hfatal
  have hnone : ¬HasError v := by
    rintro ⟨d, hd, herror⟩
    have hds : diagnosticsIn v = [unused, .obj [("severity", .str "info")]] := rfl
    rw [hds, List.mem_cons, List.mem_singleton] at hd
    rcases hd with rfl | rfl <;> exact absurd herror (by decide)
  obtain ⟨a, ha⟩ := hartifact.2 ⟨hnone, by decide, by decide⟩
  exact ⟨hv, hfatal, ⟨a, ha, hwarnings a ha⟩, hrefused⟩

end Solwright.Output
