import Solwright.Proofs.Compiler.Verdict
import Solwright.Proofs.Deployment.Described
import Solwright.Proofs.Session.Compiling

/-! Compiling with a compiler that keeps to its documentation: it puts out documents of the documented
shape, and refuses with diagnostics that have it. Then no compilation ends in a fault of reading. -/

namespace Solwright

open Json Deployment

namespace Output

/-- An output in which the descriptions of the contracts have the documented shape as well. -/
structure IsDescribed (v : Json) : Prop where
  output : IsOutput v
  items : ∀ unit, ∀ c ∈ contractsIn v unit, c.2.MayHold "abi" AreItems

variable {v : Json} {unit name : RawText} {strict : Bool} {source : String} {a : Artifact}

theorem IsDrawnFrom.items {entry : Json} (h : IsDrawnFrom a entry) (hitems : entry.MayHold "abi" AreItems) :
    AreItems a.abi := by
  rw [h.description]
  rcases hitems.getD with hnull | ⟨vs, hvs, hall⟩
  · exact ⟨[], if_neg (by rw [Json.under, List.foldl_cons, hnull]; decide), by simp⟩
  · split
    · exact ⟨vs, hvs, hall⟩
    · exact ⟨[], rfl, by simp⟩

theorem IsDescribed.items_of_ok (h : IsDescribed v) (ha : (readJson v unit name strict source).1 = .ok a) :
    AreItems a.abi := by
  obtain ⟨entry, hlookup, hdrawn⟩ := readJson_eq_ok ha
  exact hdrawn.items (h.items unit _ (mem_of_lookup hlookup))

theorem IsDescribed.failsOnly (h : IsDescribed v) (unit name : RawText) (strict : Bool) (source : String) :
    FailsOnly (fun f => ∃ e, f = .failure e) (readJson v unit name strict source).1 := by
  intro f hf
  have hends := h.output.ends unit name strict source
  rw [hf] at hends
  cases hends with
  | diagnosed => exact ⟨_, rfl⟩
  | notFound => exact ⟨_, rfl⟩

theorem isDescribed_errors {ds : List Json} (h : ∀ d ∈ ds, IsDiagnostic d) :
    IsDescribed (.obj [("errors", .arr ds)]) where
  output := isOutput_errors h
  items unit c hc := by cases hc

theorem isDescribed_contracts {unit : RawText} {contracts : List (RawText × Json)}
    (h : ∀ c ∈ contracts, IsEntry c.2 ∧ c.2.MayHold "abi" AreItems) :
    IsDescribed (.obj [("contracts", .obj [(unit, .obj contracts)])]) where
  output := isOutput_contracts fun c hc => (h c hc).1
  items unit' c hc := by
    by_cases hunit : unit' = unit
    · subst hunit
      exact (h c (by simpa [contractsIn, get?, members] using hc)).2
    · have hempty : contractsIn (.obj [("contracts", .obj [(unit, .obj contracts)])]) unit' = [] := by
        simp [contractsIn, get?, members, List.lookup_cons, beq_eq_false_iff_ne.2 hunit]
      rw [hempty] at hc
      cases hc

theorem isDescribed_empty : IsDescribed (.obj []) where
  output := ⟨⟨_, rfl⟩, mayHold_empty, mayHold_empty⟩
  items unit c hc := by cases hc

end Output

/-- A run of a compiler that keeps to its documentation. -/
def Run.IsDocumented : Run → Prop
  | .output v => Output.IsDescribed v
  | .refused _ diagnostics =>
    diagnostics.isTrue = true → ∃ ds, diagnostics = .arr ds ∧ ∀ d ∈ ds, Output.IsDiagnostic d
  | .crashed _ => False

namespace Session

open Output

theorem documentOf_documented {r : Run} (h : r.IsDocumented) :
    ∃ v, documentOf r = .ok v ∧ IsDescribed v := by
  cases r with
  | output v => exact ⟨v, rfl, h⟩
  | crashed reason => exact h.elim
  | refused message diagnostics =>
    unfold documentOf
    by_cases htrue : diagnostics.isTrue = true
    · obtain ⟨ds, rfl, hds⟩ := h htrue
      exact ⟨_, if_pos htrue, isDescribed_errors hds⟩
    · refine ⟨_, if_neg htrue, isDescribed_errors fun d hd => ?_⟩
      rw [List.mem_singleton.1 hd]
      exact isDiagnostic_message _ _

variable {s : Session} {source name : RawText}

/-- A path of the catalogue could not be looked up, or there was no time left. -/
def IsStop (f : Fault) : Prop :=
  f = .timedOut ∨ f.IsBadPath

theorem Halts.isStop {f : Fault} (h : Halts s source name f)
    (hruns : ∀ n, (s.outside.runs n).outcome.IsDocumented) : IsStop f := by
  cases h with
  | elapsed | late => exact .inl rfl
  | lost _ hlost => exact .inr (Catalog.imported_error hlost)
  | unread _ _ _ hread hnot =>
    obtain ⟨v, hv, hdescribed⟩ := documentOf_documented (hruns 0)
    change ((documentOf (s.outside.runs 0).outcome).bind _) = _ at hread
    rw [hv] at hread
    obtain ⟨e, he⟩ := hdescribed.failsOnly _ _ _ _ f hread
    exact absurd he (hnot e)

theorem items_of_verdict {a : Artifact} (h : s.verdict source name = .ok a)
    (hruns : ∀ n, (s.outside.runs n).outcome.IsDocumented) : AreItems a.abi := by
  unfold verdict at h
  split_ifs at h
  obtain ⟨v, hv, hdescribed⟩ := documentOf_documented (hruns 0)
  cases himported : s.catalog.imported [(sourceName name, source)] with
  | error f =>
    rw [himported] at h
    cases h
  | ok found =>
    rw [himported, within_upcoming] at h
    cases hlate : s.isLate with
    | true =>
      rw [hlate] at h
      cases h
    | false =>
      rw [hlate] at h
      change ((documentOf (s.outside.runs 0).outcome).bind _) = _ at h
      rw [hv] at h
      exact hdescribed.items_of_ok h

end Session

end Solwright
