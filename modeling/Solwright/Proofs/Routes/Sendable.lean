import Solwright.Proofs.Compiler.Selection
import Solwright.Proofs.Session.Documented
import Solwright.Proofs.Text.Raw
import Solwright.Routes

/-! What can be sent in a response. All that an artifact or a failure reports is taken from the output of
the compiler, so it can be sent where that could. -/

namespace Solwright

open Json

namespace Routes

theorem areSendable_iff {vs : List Json} : areSendable vs = true ↔ ∀ v ∈ vs, isSendable v = true := by
  induction vs with
  | nil => simp [areSendable]
  | cons v vs ih => simp [areSendable, ih]

theorem haveSendable_iff {ms : List (RawText × Json)} :
    haveSendable ms = true ↔ ∀ m ∈ ms, m.1.isFormed = true ∧ isSendable m.2 = true := by
  induction ms with
  | nil => simp [haveSendable]
  | cons m ms ih => simp [haveSendable, ih]

theorem isSendable_arr {vs : List Json} : isSendable (.arr vs) = true ↔ ∀ v ∈ vs, isSendable v = true :=
  areSendable_iff

theorem isSendable_obj {ms : List (RawText × Json)} :
    isSendable (.obj ms) = true ↔ ∀ m ∈ ms, m.1.isFormed = true ∧ isSendable m.2 = true :=
  haveSendable_iff

theorem isSendable_members {v : Json} (h : isSendable v = true) :
    ∀ m ∈ v.members, m.1.isFormed = true ∧ isSendable m.2 = true := by
  cases v with
  | obj ms => exact isSendable_obj.1 h
  | _ => exact nofun

theorem isSendable_get {v : Json} (h : isSendable v = true) (key : RawText) :
    isSendable ((v.get? key).getD .null) = true := by
  cases hget : v.get? key with
  | none => rfl
  | some w => exact (isSendable_members h _ (mem_of_lookup hget)).2

theorem isSendable_under {v : Json} (h : isSendable v = true) (path : List RawText) :
    isSendable (v.under path) = true := by
  induction path generalizing v with
  | nil => exact h
  | cons key path ih => exact ih (isSendable_get h key)

theorem isSendable_orObject {v : Json} (h : isSendable v = true) : isSendable v.orObject = true := by
  unfold Json.orObject
  split
  · exact h
  · rfl

theorem isSendable_text? (s : Option String) : isSendable (.text? s) = true := by
  cases s <;> rfl

@[simp]
theorem isSendable_json (s : RawText) : isSendable s.json = s.isFormed := by
  cases s <;> rfl

theorem isSendable_rawTexts {ss : List RawText} (h : ∀ s ∈ ss, s.isFormed = true) :
    isSendable (.rawTexts ss) = true := by
  refine isSendable_arr.2 fun v hv => ?_
  obtain ⟨s, hs, rfl⟩ := List.mem_map.1 hv
  rw [isSendable_json, h s hs]

theorem isFormed_of_mem_problems {source : String} : ∀ p ∈ Source.problems source, p.isFormed = true := by
  intro p hp
  obtain ⟨flaw, -, rfl⟩ := List.mem_map.1 hp
  cases flaw <;> rfl

theorem isFormed_display {v : Json} (h : isSendable v = true) : v.display.isFormed = true := by
  cases v with
  | illFormed codes => cases h
  | _ => rfl

theorem isSendable_messagesIn (v : Json) (severity : String) :
    ∀ m ∈ Output.messagesIn v severity, isSendable m = true := by
  intro m hm
  obtain ⟨d, -, rfl⟩ := List.mem_map.1 hm
  rfl

theorem lookup_sentMembers {key : RawText} (h : isHidden key = false) (ms : List (RawText × Json)) :
    (sentMembers ms).lookup key = (ms.lookup key).map sent := by
  induction ms with
  | nil => rfl
  | cons m ms ih =>
    obtain ⟨key', v⟩ := m
    rw [sentMembers]
    by_cases hkey : key = key'
    · subst hkey
      rw [if_neg (by simp [h])]
      simp
    · have hne : (key == key') = false := beq_eq_false_iff_ne.2 hkey
      rw [List.lookup_cons, hne]
      split
      · exact ih
      · rw [List.lookup_cons, hne]
        exact ih

theorem get?_sent {key : RawText} (h : isHidden key = false) (v : Json) :
    (sent v).get? key = (v.get? key).map sent := by
  cases v with
  | obj ms => exact lookup_sentMembers h ms
  | _ => rfl

mutual

theorem isSendable_sent : ∀ {v : Json}, isSendable v = true → isSendable (sent v) = true
  | .arr vs, h => by
    rw [sent]
    exact @areSendable_sent vs h
  | .obj ms, h => by
    rw [sent]
    exact @haveSendable_sent ms h
  | .null, h | .bool _, h | .int _, h | .float _, h | .str _, h | .illFormed _, h => h

theorem areSendable_sent : ∀ {vs : List Json}, areSendable vs = true → areSendable (sentItems vs) = true
  | [], _ => rfl
  | v :: vs, h => by
    rw [areSendable, Bool.and_eq_true] at h
    rw [sentItems, areSendable, isSendable_sent h.1, areSendable_sent h.2]
    rfl

theorem haveSendable_sent : ∀ {ms : List (RawText × Json)}, haveSendable ms = true →
    haveSendable (sentMembers ms) = true
  | [], _ => rfl
  | (key, v) :: ms, h => by
    rw [haveSendable, Bool.and_eq_true, Bool.and_eq_true] at h
    rw [sentMembers]
    split
    · exact haveSendable_sent h.2
    · rw [haveSendable, h.1.1, isSendable_sent h.1.2, haveSendable_sent h.2]
      rfl

end

theorem respond_of_sendable {status : Nat} {v : Json} (h : isSendable v = true) :
    respond status v = ⟨status, .json (sent v)⟩ := if_pos (isSendable_sent h)

end Routes

open Routes

/-- An artifact that is drawn from an entry can be sent where the entry could, under names that can be. -/
theorem Output.IsDrawnFrom.isSendable_report {a : Artifact} {entry : Json} (h : IsDrawnFrom a entry)
    (hentry : isSendable entry = true) (hunit : a.sourceName.isFormed = true) (hname : a.contractName.isFormed = true)
    (hwarnings : ∀ w ∈ a.warnings, isSendable w = true) : isSendable (.obj a.report) = true := by
  have habi : isSendable a.abi = true := by
    rw [h.description]
    split
    · exact isSendable_under hentry _
    · rfl
  have hobject : ∀ path, isSendable (entry.under path).orObject = true := fun path =>
    isSendable_orObject (isSendable_under hentry path)
  simp only [Artifact.report, isSendable, haveSendable, isSendable_text?, habi, areSendable_iff.2 hwarnings,
    h.links, h.deployedLinks, h.methods, h.estimates, h.developerDocs, h.userDocs, hobject, isSendable_json,
    RawText.isFormed_append, RawText.isFormed_formed, hunit, hname, Bool.and_true]

/-- A run whose output, or whose diagnostics, can be sent. -/
def Run.IsSendable : Run → Prop
  | .output v => Routes.isSendable v = true
  | .refused _ diagnostics => Routes.isSendable diagnostics = true
  | .crashed _ => True

/-- What a run leaves of a compiler that keeps to its documentation and puts out what can be sent. -/
theorem Session.documentOf_sendable {r : Run} (h : r.IsDocumented) (hsend : r.IsSendable) :
    ∃ v, documentOf r = .ok v ∧ Output.IsDescribed v ∧ isSendable v = true := by
  obtain ⟨v, hv, hdescribed⟩ := documentOf_documented h
  refine ⟨v, hv, hdescribed, ?_⟩
  cases r with
  | output w =>
    cases hv
    exact hsend
  | crashed reason => exact h.elim
  | refused message diagnostics =>
    have hsend : Routes.isSendable diagnostics = true := hsend
    rw [documentOf] at hv
    split at hv
    · cases hv
      simp [Routes.isSendable, haveSendable, hsend]
    · cases hv
      rfl

namespace Output

variable {v : Json} {unit name : RawText} {strict : Bool} {source : String}

theorem isSendable_contractsIn (h : isSendable v = true) {c : RawText × Json} (hc : c ∈ contractsIn v unit) :
    c.1.isFormed = true ∧ isSendable c.2 = true :=
  isSendable_members (isSendable_under h ["contracts", unit]) c hc

/-- The wording of a contract that is not there can be sent where all names in it can be. -/
theorem IsOutput.isFormed_notFound (h : IsOutput v) (hsend : isSendable v = true) (hunit : unit.isFormed = true)
    (hname : name.isFormed = true) {reason : RawText}
    (hread : (readJson v unit name strict source).1 = .error (.failure (.contractNotFound reason))) :
    reason.isFormed = true := by
  obtain ⟨hnone, hmissing⟩ := (h.ends unit name strict source).notFound_iff.1 ⟨reason, hread⟩
  have hquiet : (messagesIn v "error").isEmpty = true := by simpa [hasError_iff] using hnone
  have hmembers : (contractsIn v unit).map (·.1) = compiledIn v unit := rfl
  rw [readJson, h.ofJson_eq] at hread
  dsimp only [read, fatal, warnings] at hread
  simp only [messages_eq, h.compiled_eq, hquiet, if_true, hmembers, select] at hread
  by_cases hempty : compiledIn v unit = []
  · simp only [hempty, List.isEmpty_nil, if_true] at hread
    cases hread
    simp [RawText.isFormed_append, hname]
  · obtain ⟨rfl, hnot⟩ := hmissing.resolve_left hempty
    simp only [List.isEmpty_iff, hempty, if_false, choose, List.contains_eq_mem, hnot, decide_false,
      Bool.false_eq_true, if_true] at hread
    cases hread
    have hall : ∀ s ∈ compiledIn v unit, s.isFormed = true := by
      intro s hs
      obtain ⟨c, hc, rfl⟩ := List.mem_map.1 hs
      exact (isSendable_contractsIn hsend hc).1
    simp [RawText.isFormed_append, hname, hunit, RawText.isFormed_joined (RawText.isFormed_formed _) hall]

theorem isSendable_diagnosed {errors warnings : List Json} (h : ∀ m ∈ errors ++ warnings, isSendable m = true) :
    isSendable (.obj (Failure.diagnosed errors warnings).report) = true := by
  have herrors := isSendable_arr.2 fun m hm => h m (List.mem_append_left warnings hm)
  have hwarnings := isSendable_arr.2 fun m hm => h m (List.mem_append_right errors hm)
  have hfirst : isSendable (Failure.diagnosed errors warnings).message.json = true := by
    cases errors with
    | nil => rfl
    | cons e es =>
      rw [isSendable_json]
      exact isFormed_display (h e (by simp))
  simpa [Failure.report, Failure.details, isSendable, haveSendable, hfirst] using ⟨herrors, hwarnings⟩

/-- Whether a failure is one of what the compiler puts out: diagnostics, or that the contract is not there. -/
def ofOutput : Failure → Bool
  | .diagnosed _ _ | .contractNotFound _ => true
  | _ => false

/-- What is reported of a compilation that came to an output. -/
def report? : Except Fault Artifact → Option (List (RawText × Json))
  | .ok a => some a.report
  | .error (.failure f) => if ofOutput f then some f.report else none
  | .error _ => none

/-- Whatever is reported can be sent, where the output can be and the names that were asked for. -/
theorem isSendable_report? (h : IsDescribed v) (hsend : isSendable v = true) (hunit : unit.isFormed = true)
    (hname : name.isFormed = true) {ms : List (RawText × Json)}
    (hms : report? (readJson v unit name strict source).1 = some ms) : isSendable (.obj ms) = true := by
  have hends := h.output.ends unit name strict source
  generalize hread : (readJson v unit name strict source).1 = outcome at hends hms
  cases hends with
  | diagnosed =>
    cases hms
    refine isSendable_diagnosed fun m hm => ?_
    rcases List.mem_append.1 hm with hm | hm
    · exact isSendable_messagesIn v _ m hm
    · exact isSendable_messagesIn v _ m hm
  | notFound reason =>
    cases hms
    have hreason : reason.isFormed = true := h.output.isFormed_notFound hsend hunit hname hread
    simp [Failure.report, Failure.details, Failure.message, isSendable, haveSendable, areSendable, hreason]
  | artifact a _ _ _ hwarnings hmade =>
    cases hms
    obtain ⟨entry, hmem, hentry⟩ := hmade
    obtain ⟨hkey, hsent⟩ := isSendable_contractsIn hsend hmem
    obtain ⟨-, -, hsource, hdrawn⟩ := artifact_eq_ok hentry
    refine hdrawn.isSendable_report hsent (hsource ▸ hunit) hkey ?_
    rw [hwarnings]
    exact isSendable_messagesIn v _

end Output

end Solwright
