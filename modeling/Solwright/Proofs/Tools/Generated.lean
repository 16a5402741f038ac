import Solwright.Proofs.Composition.Functions
import Solwright.Proofs.Composition.Inherited
import Solwright.Proofs.Tools.Answers

/-! What the answer with a generated source says of its features. What is merged can be told from the source;
the answer lists the features as they were asked for, whatever became of them. -/

namespace Solwright

open Solwright.Source Solwright.Composition

/-- A source has all of a fragment: its files among the imports, its functions among those that are defined,
and every text that it brings. -/
structure Fragment.IsIn (p : Fragment) (source : String) : Prop where
  imports : ∀ path ∈ p.imports, path ∈ Source.imports source
  functions : ∀ m ∈ p.methods, m.name.toList ∈ functions source.toList
  texts : ∀ slot, ∀ s ∈ p.textsIn slot, s.toList <:+: source.toList

/-- A feature is merged into the source of a family: it is offered, and its fragment is there. -/
def Feature.IsMerged (family : Family) (source : String) (f : Feature) : Prop :=
  f ∈ (Template.of family).features ∧ (Fragment.of (some family) f).IsIn source

namespace Composition

/-- Something is brought by a feature alone: neither by the base contract nor by another feature of the
family. -/
def bringsOwn (base : Template → List String) (brought : Fragment → List String) (family : Family)
    (f : Feature) : Bool :=
  (brought (Fragment.of (some family) f)).any fun s => !(base (Template.of family)).contains s &&
    (Template.of family).features.all fun g => g == f || !(brought (Fragment.of (some family) g)).contains s

theorem exists_own {base : Template → List String} {brought : Fragment → List String} {r : Request} {f : Feature}
    (h : bringsOwn base brought r.family f = true) (hf : f ∉ r.applied) :
    ∃ s ∈ brought (Fragment.of (some r.family) f), s ∉ gather base brought r.family r.applied := by
  obtain ⟨s, hs, hown⟩ := List.any_eq_true.1 h
  simp only [Bool.and_eq_true, Bool.not_eq_true', List.contains_eq_mem, decide_eq_false_iff_not, List.all_eq_true,
    Bool.or_eq_true, beq_iff_eq] at hown
  refine ⟨s, hs, fun hm => ?_⟩
  rcases List.mem_append.1 hm with hbase | hm
  · exact hown.1 hbase
  · obtain ⟨g, hg, hsg⟩ := List.mem_flatMap.1 hm
    rcases hown.2 g (Request.mem_applied.1 hg).1 with rfl | hno
    · exact hf hg
    · exact hno hsg

/-- An offered feature brings a file or a function that no other one brings. -/
theorem bringsOwn_of_offered {family : Family} {f : Feature} (hf : f ∈ (Template.of family).features) :
    bringsOwn Template.imports Fragment.imports family f = true ∨
      bringsOwn (·.methods.map (·.name)) (·.methods.map (·.name)) family f = true := by
  have hall : Family.all.all fun family => (Template.of family).features.all fun f =>
      bringsOwn Template.imports Fragment.imports family f ||
        bringsOwn (·.methods.map (·.name)) (·.methods.map (·.name)) family f := by rfl
  exact Bool.or_eq_true_iff.1 (List.all_eq_true.1 (Family.of_all hall family) f hf)

end Composition

/-- What is merged into a composed source is what was applied. -/
theorem Request.isMerged_iff (r : Request) {f : Feature} :
    f.IsMerged r.family r.compose.source ↔ f ∈ r.applied := by
  constructor
  · rintro ⟨hoffered, himports, hfunctions, -⟩
    by_contra hf
    rcases bringsOwn_of_offered hoffered with hown | hown
    · obtain ⟨path, hpath, hnot⟩ := exists_own hown hf
      rw [← imports_compose] at hnot
      exact hnot (himports path hpath)
    · obtain ⟨name, hname, hnot⟩ := exists_own hown hf
      obtain ⟨m, hm, rfl⟩ := List.mem_map.1 hname
      have hdefined := hfunctions m hm
      rw [r.functions_compose] at hdefined
      obtain ⟨m', hm', hsame⟩ := List.mem_map.1 hdefined
      refine hnot ?_
      rw [← String.toList_inj.1 hsame, gather, ← List.map_flatMap, ← List.map_append]
      exact List.mem_map_of_mem hm'
  · intro hf
    refine ⟨(Request.mem_applied.1 hf).1, fun path hpath => ?_, fun m hm => ?_, fun slot s hs => infix_source r hf hs⟩
    · rw [imports_compose]
      exact List.mem_append_right _ (List.mem_flatMap.2 ⟨f, hf, hpath⟩)
    · rw [r.functions_compose]
      exact List.mem_map.2 ⟨m, List.mem_append_right _ (List.mem_flatMap.2 ⟨f, hf, hm⟩), rfl⟩

namespace Tools

open Session

/-- A list tells the truth about the features in a source of a family: each of its texts spells one that is
merged, each that is merged is spelled by one of them, and no two of them spell the same. -/
structure TellsTruth (family : Family) (source : String) (listed : List RawText) : Prop where
  merged : ∀ t ∈ listed, ∃ f : Feature, f.IsSpelled t ∧ f.IsMerged family source
  whole : ∀ f : Feature, f.IsMerged family source → ∃ t ∈ listed, f.IsSpelled t
  once : listed.Pairwise fun t u => ∀ f : Feature, ¬(f.IsSpelled t ∧ f.IsSpelled u)

/-- The answer to an order with an accepted request: the composed source, and the features as they were asked
for. All that are merged are among them, and they are no others and none twice exactly if the request names
only features that its family offers, each once. -/
theorem generateSource_lists (s : Session) {o : Order} {r : Request} (h : o.request s.outside.limits.reading = .ok r) :
    ∃ v, ((generateSource o).run s).1 = .ok v ∧ v.under ["status"] = .str "success" ∧
      v.under ["data", "generated_code"] = .str r.compose.source ∧
      v.under ["data", "applied_features"] = .rawTexts r.features ∧
      (∀ f : Feature, f.IsMerged r.family r.compose.source → ∃ t ∈ r.features, f.IsSpelled t) ∧
      (TellsTruth r.family r.compose.source r.features ↔
        (∀ t ∈ r.features, ∃ f ∈ (Template.of r.family).features, f.IsSpelled t) ∧
        r.features.Pairwise fun t u => ∀ f : Feature, ¬(f.IsSpelled t ∧ f.IsSpelled u)) := by
  have hwhole : ∀ f : Feature, f.IsMerged r.family r.compose.source → ∃ t ∈ r.features, f.IsSpelled t :=
    fun f hf => (Request.mem_applied.1 (r.isMerged_iff.1 hf)).2
  obtain ⟨journal, hrun⟩ := generate_run r s
  refine ⟨generated r.compose, ?_, rfl, rfl, rfl, hwhole, ?_⟩
  · rw [generateSource, run_tryCatch, run_accepted_bind, h, run_ok_bind, run_bind, hrun]
    rfl
  · constructor
    · rintro ⟨hmerged, -, honce⟩
      refine ⟨fun t ht => ?_, honce⟩
      obtain ⟨f, hspelled, hf⟩ := hmerged t ht
      exact ⟨f, hf.1, hspelled⟩
    · rintro ⟨hoffered, honce⟩
      refine ⟨fun t ht => ?_, hwhole, honce⟩
      obtain ⟨f, hf, hspelled⟩ := hoffered t ht
      exact ⟨f, hspelled, r.isMerged_iff.2 (Request.mem_applied.2 ⟨hf, t, ht, hspelled⟩)⟩

theorem generateSource_lists_royalty :
    let s : Session :=
      { settings := ⟨"0.8.20", "shanghai", true, 200, none, false, some (.ofDecimal false 60 0), none,
          "gemini-2.0-flash", some (.ofDecimal false 30 0), "INFO"⟩
        outside := .steady "0.8.20" (.obj []) }
    let o : Order := ⟨.str "fungible-token", .str "Widget", .str "", .texts ["mintable", "royalty"], .str ""⟩
    ∃ r v, o.request s.outside.limits.reading = .ok r ∧ ((generateSource o).run s).1 = .ok v ∧
      v.under ["data", "generated_code"] = .str r.compose.source ∧
      v.under ["data", "applied_features"] = .rawTexts ["mintable", "royalty"] ∧
      ¬Feature.IsMerged .fungible r.compose.source .royalty ∧
      ¬TellsTruth .fungible r.compose.source ["mintable", "royalty"] := by
  intro s o
  obtain ⟨r, hr, hfamily, hfeatures⟩ : ∃ r, o.request s.outside.limits.reading = .ok r ∧ r.family = .fungible ∧
      r.features = [.formed "mintable", .formed "royalty"] := ⟨_, rfl, rfl, rfl⟩
  obtain ⟨v, hv, -, hcode, hlisted, -, htruth⟩ := generateSource_lists s hr
  rw [hfamily, hfeatures] at htruth
  rw [hfeatures] at hlisted
  have hroyalty : Feature.royalty ∉ (Template.of .fungible).features := by decide
  refine ⟨r, v, hr, hv, hcode, hlisted, fun h => hroyalty h.1, fun h => ?_⟩
  obtain ⟨f, hf, hspelled⟩ := (htruth.1 h).1 "royalty" (by simp)
  have hother : ∀ f ∈ (Template.of .fungible).features, Feature.ofText? "royalty" ≠ some f := by decide
  exact hother f hf (Feature.ofText?_eq_some_iff.2 hspelled)

end Tools

end Solwright
