import Solwright.Proofs.Routes.Sendable
import Solwright.Proofs.Session.Gate

/-! The outcome of a compilation that is let through to the compiler, for a session as it was before the
work began: the load decides first, then the time, then the library paths, then the output. -/

namespace Solwright

open Json Session

namespace Session

open Output

variable {s : Session} {source name : RawText}

/-- How a compilation that comes to an output ends: with an artifact, or with a failure that has messages. -/
inductive Concluded : Except Fault Artifact → Prop
  | made (a : Artifact) : Concluded (.ok a)
  | diagnosed (errors warnings : List Json) : errors ≠ [] →
      Concluded (.error (.failure (.diagnosed errors warnings)))
  | notFound (reason : RawText) : Concluded (.error (.failure (.contractNotFound reason)))

theorem concluded_readJson {v : Json} (h : IsDescribed v) (unit name : RawText) (strict : Bool) (source : String) :
    Concluded (readJson v unit name strict source).1 := by
  have hends := h.output.ends unit name strict source
  generalize (readJson v unit name strict source).1 = outcome at hends
  cases hends with
  | diagnosed herror => exact .diagnosed _ _ (hasError_iff.1 herror)
  | notFound reason => exact .notFound reason
  | artifact a => exact .made a

/-- All the ways in which the outcome of an accepted compilation comes about. -/
inductive Settles (s : Session) (source name : RawText) : Except Fault Artifact → Prop
  | unavailable (reason : String) : ¬s.Loads →
      Settles s source name (.error (.failure (.engineUnavailable reason)))
  | elapsed : s.Loads → isOver s.settings.compileTimeout = true → Settles s source name (.error .timedOut)
  | lost (f : Fault) : s.Loads → isOver s.settings.compileTimeout = false →
      s.catalog.imported [(sourceName name, source)] = .error f → Settles s source name (.error f)
  | late (found : List (RawText × RawText)) : s.Loads → isOver s.settings.compileTimeout = false →
      s.catalog.imported [(sourceName name, source)] = .ok found → s.isLate = true →
      Settles s source name (.error .timedOut)
  | concluded (found : List (RawText × RawText)) {o : Except Fault Artifact} : s.Loads →
      isOver s.settings.compileTimeout = false →
      s.catalog.imported [(sourceName name, source)] = .ok found → s.isLate = false →
      s.verdict source name = o → Concluded o → Settles s source name o

/-- The compiler keeps to its documentation, and what it puts out can be sent. -/
def KeepsToForm (s : Session) : Prop :=
  ∀ n, (s.outside.runs n).outcome.IsDocumented ∧ (s.outside.runs n).outcome.IsSendable

/-- The compiler keeps to its documentation. -/
def KeepsToDocs (s : Session) : Prop :=
  ∀ n, (s.outside.runs n).outcome.IsDocumented

theorem settles_verdict (hloads : s.Loads) (hdocs : s.KeepsToDocs) (source name : RawText) :
    Settles s source name (s.verdict source name) := by
  cases hover : isOver s.settings.compileTimeout with
  | true =>
    rw [verdict, if_pos hover]
    exact .elapsed hloads hover
  | false =>
    cases himported : s.catalog.imported [(sourceName name, source)] with
    | error f =>
      rw [verdict, if_neg (by simp [hover]), himported]
      exact .lost f hloads hover himported
    | ok found =>
      cases hlate : s.isLate with
      | true =>
        have htimedOut : s.verdict source name = .error .timedOut := by
          rw [verdict, if_neg (by simp [hover]), himported, within_upcoming, hlate]
          rfl
        rw [htimedOut]
        exact .late found hloads hover himported hlate
      | false =>
        obtain ⟨v, hv, hdescribed⟩ := documentOf_documented (hdocs 0)
        refine .concluded found hloads hover himported hlate rfl ?_
        rw [verdict, if_neg (by simp [hover]), himported, within_upcoming, hlate]
        change Concluded ((documentOf (s.outside.runs 0).outcome).bind _)
        rw [hv]
        exact concluded_readJson hdescribed _ _ _ _

/-- What is reported of a verdict can be sent, if what the compiler puts out can be and the names that it is
asked for. -/
theorem isSendable_verdict (hform : s.KeepsToForm) (hname : name.isFormed = true) {ms : List (RawText × Json)}
    (hms : report? (s.verdict source name) = some ms) : Routes.isSendable (.obj ms) = true := by
  obtain ⟨v, hv, hdescribed, hsend⟩ := documentOf_sendable (hform 0).1 (hform 0).2
  have hunit : (sourceName name).isFormed = true := by
    rw [sourceName, RawText.isFormed_append, hname]
    rfl
  unfold verdict at hms
  split at hms
  · cases hms
  cases himported : s.catalog.imported [(sourceName name, source)] with
  | error f =>
    rw [himported] at hms
    rcases Catalog.imported_error himported with rfl | rfl | rfl <;> cases hms
  | ok found =>
    rw [himported, within_upcoming] at hms
    cases hlate : s.isLate with
    | true =>
      rw [hlate] at hms
      cases hms
    | false =>
      rw [hlate] at hms
      change report? ((documentOf (s.outside.runs 0).outcome).bind _) = some ms at hms
      rw [hv] at hms
      exact isSendable_report? hdescribed hsend hunit hname hms

theorem Compiled.settles {p : Except Fault Artifact × Session} (h : Compiled s source name p)
    (hdocs : s.KeepsToDocs) : Settles s source name p.1 := by
  rcases h.outcome with ⟨hloads, houtcome⟩ | ⟨hnone, reason, houtcome⟩
  · rw [houtcome]
    exact settles_verdict hloads hdocs source name
  · rw [houtcome]
    exact .unavailable reason hnone

theorem Untouched.eq {s' : Session} (h : Untouched s s') : s' =
    { s with outside := { s.outside with replies := s'.outside.replies }, journal := s'.journal } := by
  obtain ⟨⟨hsettings, hcatalog, -, -⟩, hloader, -, houtside⟩ := h
  cases s'
  cases hsettings
  cases hcatalog
  cases hloader
  rw [Session.mk.injEq]
  exact ⟨rfl, rfl, rfl, houtside, rfl⟩

/-- Whatever keeps away from the compiler leaves the outcome of a compilation to it. -/
theorem Untouched.settles {s' : Session} (h : Untouched s s') {o : Except Fault Artifact}
    (ho : Settles s' source name o) : Settles s source name o := by
  rw [h.eq] at ho
  cases ho with
  | unavailable reason hnone => exact .unavailable reason hnone
  | elapsed hloads hover => exact .elapsed hloads hover
  | lost f hloads hover hlost => exact .lost f hloads hover hlost
  | late found hloads hover hfound hlate => exact .late found hloads hover hfound hlate
  | concluded found hloads hover hfound hlate hverdict ho =>
    exact .concluded found hloads hover hfound hlate hverdict ho

theorem Untouched.free {s' : Session} (h : Untouched s s') (hfree : s.loader.Free) : s'.loader.Free :=
  h.loader ▸ hfree

theorem Untouched.keepsToDocs {s' : Session} (h : Untouched s s') (hdocs : s.KeepsToDocs) :
    s'.KeepsToDocs := by
  rw [KeepsToDocs, h.outside]
  exact hdocs

theorem settles_compile (hfree : s.loader.Free) (hdocs : s.KeepsToDocs) (source name : RawText) :
    Settles s source name ((compile source name { timeout := none }).run s).1 :=
  (compiled_compile hfree source name).settles hdocs

theorem settles_compileChecked (hfree : s.loader.Free) (hdocs : s.KeepsToDocs)
    (hproblems : Source.problems source.shown = []) (name : RawText) :
    Settles s source name ((compileChecked source name none).run s).1 := by
  unfold compileChecked
  rw [hproblems]
  exact settles_compile hfree hdocs source name

theorem settles_build (hfree : s.loader.Free) (hdocs : s.KeepsToDocs) (r : Request) :
    Settles s r.compose.source r.contractName.text ((build r none).run s).1 := by
  obtain ⟨s', huntouched, hrun⟩ := untouched_build r none s
  rw [hrun]
  exact huntouched.settles (settles_compile (huntouched.free hfree) (huntouched.keepsToDocs hdocs) _ _)

end Session

end Solwright
