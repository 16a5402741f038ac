import Solwright.Proofs.Composition.Accepted
import Solwright.Proofs.Composition.Applied

/-! The features of a request count through what is applied of them. Texts that add nothing may be put
in between, and a feature may be spelled in another way: the source and the warnings stay the same. -/

namespace Solwright

open Solwright.Composition

/-- Rewriting a list of texts without a change in what is applied. At any place a text may be put in
that spells no feature, or one that the family does not offer, or one that was spelled before; and a
text may give way to another spelling of its feature. The features that were spelled before come
first. -/
inductive Respelled (family : Family) : List Feature → List RawText → List RawText → Prop
  | done {seen : List Feature} : Respelled family seen [] []
  | kept {seen : List Feature} {s : RawText} {xs ys : List RawText} : (∀ f : Feature, ¬f.IsSpelled s) →
      Respelled family seen xs ys → Respelled family seen (s :: xs) (s :: ys)
  | respelled {seen : List Feature} {f : Feature} {s s' : RawText} {xs ys : List RawText} :
      f.IsSpelled s → f.IsSpelled s' → Respelled family (f :: seen) xs ys →
      Respelled family seen (s :: xs) (s' :: ys)
  | unknown {seen : List Feature} {s : RawText} {xs ys : List RawText} : (∀ f : Feature, ¬f.IsSpelled s) →
      Respelled family seen xs ys → Respelled family seen xs (s :: ys)
  | notOffered {seen : List Feature} {f : Feature} {s : RawText} {xs ys : List RawText} : f.IsSpelled s →
      f ∉ (Template.of family).features → Respelled family seen xs ys → Respelled family seen xs (s :: ys)
  | again {seen : List Feature} {f : Feature} {s : RawText} {xs ys : List RawText} : f.IsSpelled s →
      f ∈ seen → Respelled family seen xs ys → Respelled family seen xs (s :: ys)

variable {family : Family} {seen applied : List Feature}

theorem Feature.ofText?_eq_none_iff {s : RawText} : ofText? s = none ↔ ∀ f : Feature, ¬f.IsSpelled s := by
  simp only [Option.eq_none_iff_forall_not_mem, Option.mem_def, ofText?_eq_some_iff]

namespace Composition

/-- Every feature that was spelled before is applied, if it is offered. -/
def Covers (family : Family) (seen applied : List Feature) : Prop :=
  ∀ f ∈ seen, f ∈ (Template.of family).features → f ∈ applied

theorem Covers.meet (h : Covers family seen applied) {f : Feature} {s : RawText} (hs : f.IsSpelled s) :
    Covers family (f :: seen) (meet family applied s) := by
  have hread := Feature.ofText?_eq_some_iff.2 hs
  intro g hg hoffered
  rcases List.mem_cons.1 hg with rfl | hg
  · rw [meet_of_offered hread hoffered, mem_addNew]
    exact .inr rfl
  · have hold := h g hg hoffered
    by_cases hf : f ∈ (Template.of family).features
    · rw [meet_of_offered hread hf, mem_addNew]
      exact .inl hold
    · rwa [meet_of_not_offered hread hf]

theorem meet_congr {f : Feature} {s s' : RawText} (hs : f.IsSpelled s) (hs' : f.IsSpelled s') :
    meet family applied s = meet family applied s' := by
  rw [meet, meet, Feature.ofText?_eq_some_iff.2 hs, Feature.ofText?_eq_some_iff.2 hs']

theorem foldl_meet_of_respelled {xs ys : List RawText} (h : Respelled family seen xs ys)
    (hseen : Covers family seen applied) :
    ys.foldl (meet family) applied = xs.foldl (meet family) applied := by
  induction h generalizing applied with
  | done => rfl
  | kept hs hrest ih =>
    rw [List.foldl_cons, List.foldl_cons, meet_of_none (Feature.ofText?_eq_none_iff.2 hs)]
    exact ih hseen
  | respelled hs hs' hrest ih =>
    rw [List.foldl_cons, List.foldl_cons, meet_congr hs' hs]
    exact ih (hseen.meet hs)
  | unknown hs hrest ih =>
    rw [List.foldl_cons, meet_of_none (Feature.ofText?_eq_none_iff.2 hs)]
    exact ih hseen
  | notOffered hs hf hrest ih =>
    rw [List.foldl_cons, meet_of_not_offered (Feature.ofText?_eq_some_iff.2 hs) hf]
    exact ih hseen
  | @again seen f s xs ys hs hf hrest ih =>
    have hread := Feature.ofText?_eq_some_iff.2 hs
    have hsame : meet family applied s = applied := by
      by_cases hoffered : f ∈ (Template.of family).features
      · rw [meet_of_offered hread hoffered, addNew_of_mem (hseen f hf hoffered)]
      · exact meet_of_not_offered hread hoffered
    rw [List.foldl_cons, hsame]
    exact ih hseen

theorem compose_congr {r r' : Request} (hfamily : r'.family = r.family)
    (hname : r'.contractName = r.contractName) (happlied : r'.applied = r.applied) :
    r'.compose.source = r.compose.source ∧ r'.compose.conflicts = r.compose.conflicts := by
  have hfilling : ∀ pieces, filling r' pieces = filling r pieces := by
    intro pieces
    funext slot
    cases slot <;> simp only [filling, hname]
  simp only [Request.compose, hfamily, happlied, hfilling, and_self]

end Composition

/-- The source and the warnings of a request depend on its features through those that are applied: the
offered ones that are spelled, each once, in the order in which they are seen first. Rewriting the texts
without a change in that changes neither the source nor a warning, and a session that generates the
contract comes to the same state and the same log. -/
theorem compose_of_respelled (r : Request) (features : List RawText)
    (h : Respelled r.family [] r.features features) :
    let r' : Request := { r with features := features }
    (r'.compose.source = r.compose.source ∧ r'.compose.conflicts = r.compose.conflicts) ∧
    (∀ s, ((Session.generate r').run s).2 = ((Session.generate r).run s).2) ∧
    (∀ r₂ : Request, r₂.family = r.family → r₂.contractName = r.contractName → r₂.applied = r.applied →
      r₂.compose.source = r.compose.source ∧ r₂.compose.conflicts = r.compose.conflicts) ∧
    (∀ f, f ∈ r.applied ↔
      f ∈ (Template.of r.family).features ∧ ∃ s ∈ r.features, f.IsSpelled s) ∧
    r.applied.Pairwise (Feature.SeenBefore r.features) ∧
    (∀ s f, Feature.ofText? s = some f ↔ f.IsSpelled s) := by
  intro r'
  have happlied : r'.applied = r.applied := by
    rw [applied_eq_foldl, applied_eq_foldl]
    exact foldl_meet_of_respelled h nofun
  have hsame : r'.compose.source = r.compose.source ∧ r'.compose.conflicts = r.compose.conflicts :=
    compose_congr rfl rfl happlied
  refine ⟨hsame, fun s => ?_, fun r₂ hfamily hname happlied => compose_congr hfamily hname happlied,
    fun f => r.mem_applied, r.pairwise_applied, fun s f => Feature.ofText?_eq_some_iff⟩
  rw [Session.run_generate, Session.run_generate, hsame.2]

theorem compose_of_respelled_spaced :
    let r : Request := ⟨.fungible, ⟨"Token", by decide⟩, none, ["mintable", "staking", "pausable"], []⟩
    let features : List RawText := [" MINTABLE\n", "royalty", "staking", "Mintable", "pausable", "", "\tPaUsable"]
    Respelled r.family [] r.features features ∧
      ({ r with features := features } : Request).compose.source = r.compose.source := by
  intro r features
  have hspelled : ∀ {f : Feature} {s : RawText}, Feature.ofText? s = some f → f.IsSpelled s :=
    Feature.ofText?_eq_some_iff.1
  have hunknown : ∀ {s : RawText}, Feature.ofText? s = none → ∀ f : Feature, ¬f.IsSpelled s :=
    Feature.ofText?_eq_none_iff.1
  have h : Respelled r.family [] r.features features :=
    .respelled (f := .mintable) (hspelled (by decide)) (hspelled (by decide)) <|
    .notOffered (f := .royalty) (hspelled (by decide)) (by decide) <|
    .kept (hunknown (by decide)) <|
    .again (f := .mintable) (hspelled (by decide)) (by decide) <|
    .respelled (f := .pausable) (hspelled (by decide)) (hspelled (by rfl)) <|
    .unknown (hunknown (by rfl)) <|
    .again (f := .pausable) (hspelled (by decide +kernel)) (by decide) .done
  exact ⟨h, (compose_of_respelled r features h).1.1⟩

end Solwright
