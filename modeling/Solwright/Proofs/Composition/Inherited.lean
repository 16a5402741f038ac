import Mathlib.Data.List.Flatten
import Mathlib.Data.List.Nodup
import Mathlib.Data.List.Perm.Subperm
import Solwright.Proofs.Composition.Accepted
import Solwright.Proofs.Library.Confinement
import Solwright.Proofs.Source.Imported

/-! What a composed contract imports and inherits. The base contract and the fragments have their imports,
parents and calls in tables of their own; whichever features are applied, a scan of the composed source
finds the imports of the tables, each parent has its file among them, and each call has its parent. -/

namespace Solwright

open Solwright.Text Solwright.Source Solwright.Composition

/-- A path leads to the file that is named after a contract. -/
def LeadsTo (path parent : String) : Prop :=
  '/' ∉ parent.toList ∧ ∃ folder, path = folder ++ "/" ++ parent ++ ".sol"

/-- A call of the constructor of a parent. -/
def CallsParent (parent call : String) : Prop :=
  ∃ arguments, call = parent ++ "(" ++ arguments ++ ")"

namespace Composition

/-- What the base contract of a family and then the fragments of some features have in a table. -/
def gather (base : Template → List String) (brought : Fragment → List String) (family : Family)
    (features : List Feature) : List String :=
  base (Template.of family) ++ features.flatMap fun f => brought (Fragment.of (some family) f)

/-- All that can be gathered for a family. -/
def gatherAll (base : Template → List String) (brought : Fragment → List String) (family : Family) :
    List String :=
  gather base brought family (Template.of family).features

variable {base : Template → List String} {brought : Fragment → List String}

theorem mem_gatherAll {r : Request} {s : String} (h : s ∈ gather base brought r.family r.applied) :
    s ∈ gatherAll base brought r.family := by
  rw [gather, List.mem_append, List.mem_flatMap] at h
  rw [gatherAll, gather, List.mem_append, List.mem_flatMap]
  exact h.imp_right fun ⟨f, hf, hs⟩ => ⟨f, (Request.mem_applied.1 hf).1, hs⟩

/-- Some of the features of a family bring no text twice if all of them do not. -/
theorem nodup_gather {r : Request} (h : (gatherAll base brought r.family).Nodup) :
    (gather base brought r.family r.applied).Nodup := by
  have hsub : r.applied ⊆ (Template.of r.family).features := fun f hf => (Request.mem_applied.1 hf).1
  obtain ⟨features, hperm, hsub⟩ := List.subperm_of_subset r.nodup_applied hsub
  have hall := h.sublist ((hsub.flatMap fun f => brought (Fragment.of (some r.family) f)).append_left _)
  exact ((hperm.flatMap_right _).append_left _).nodup_iff.1 hall

/-- The texts of two tables go together, in the base contract and in each fragment. -/
theorem exists_gather {base' : Template → List String} {brought' : Fragment → List String}
    {p : String → String → Prop} {r : Request}
    (hbase : ∀ s ∈ base (Template.of r.family), ∃ t ∈ base' (Template.of r.family), p s t)
    (hbrought : ∀ f, ∀ s ∈ brought (Fragment.of (some r.family) f),
      ∃ t ∈ brought' (Fragment.of (some r.family) f), p s t) :
    ∀ s ∈ gather base brought r.family r.applied, ∃ t ∈ gather base' brought' r.family r.applied, p s t := by
  intro s hs
  rcases List.mem_append.1 hs with hs | hs
  · obtain ⟨t, ht, hp⟩ := hbase s hs
    exact ⟨t, List.mem_append_left _ ht, hp⟩
  · obtain ⟨f, hf, hs⟩ := List.mem_flatMap.1 hs
    obtain ⟨t, ht, hp⟩ := hbrought f s hs
    exact ⟨t, List.mem_append_right _ (List.mem_flatMap.2 ⟨f, hf, ht⟩), hp⟩

/-- A text without the fragments' repetitions is the same where they bring nothing twice. -/
theorem firstSeen_gather (base : Template → List String) {r : Request}
    (h : (gatherAll base brought r.family).Nodup) :
    firstSeen ((r.applied.map (Fragment.of (some r.family))).flatMap brought) =
      r.applied.flatMap fun f => brought (Fragment.of (some r.family) f) := by
  rw [List.flatMap_map]
  exact firstSeen_of_nodup (List.nodup_append.1 (nodup_gather h)).2.1

/-- A test of two texts, as far as they are ASCII. -/
def passesBoth (p : List Char → List Char → Bool) (s t : String) : Bool :=
  passes (fun a => passes (p a) t) s

theorem of_passesBoth {p : List Char → List Char → Bool} {s t : String} (h : passesBoth p s t = true) :
    p s.toList t.toList = true :=
  of_passes (of_passes h)

/-- Whether a path leads to the file of a contract. -/
def leads (path parent : List Char) : Bool :=
  !parent.contains '/' && ('/' :: (parent ++ ".sol".toList)).isSuffixOf path

theorem leads_iff {path parent : String} :
    leads path.toList parent.toList = true ↔ LeadsTo path parent := by
  have hfile : ∀ folder : String, (folder ++ "/" ++ parent ++ ".sol").toList =
      folder.toList ++ '/' :: (parent.toList ++ ".sol".toList) := by
    intro folder
    simp [String.toList_append]
  rw [leads, Bool.and_eq_true, Bool.not_eq_true', List.isSuffixOf_iff_suffix, LeadsTo,
    ← Bool.not_eq_true, List.contains_iff_mem]
  refine and_congr_right fun _ => ⟨?_, ?_⟩
  · rintro ⟨a, ha⟩
    refine ⟨String.ofList a, String.toList_inj.1 ?_⟩
    rw [hfile, String.toList_ofList, ha]
  · rintro ⟨folder, rfl⟩
    rw [hfile]
    exact List.suffix_append _ _

/-- Whether a call is one of the constructor of a parent. -/
def calls (call parent : List Char) : Bool :=
  (parent ++ ['(']).isPrefixOf call && [')'].isSuffixOf (call.drop (parent.length + 1))

theorem callsParent_of_calls {call parent : String} (h : calls call.toList parent.toList = true) :
    CallsParent parent call := by
  rw [calls, Bool.and_eq_true, List.isPrefixOf_iff_prefix, List.isSuffixOf_iff_suffix] at h
  obtain ⟨⟨a, ha⟩, b, hb⟩ := h
  refine ⟨String.ofList b, String.toList_inj.1 ?_⟩
  rw [← ha, List.drop_left' (by simp)] at hb
  rw [← ha, ← hb]
  simp [String.toList_append]

/-- A path of the library that an import can name. -/
def isLibraryPath (path : List Char) : Bool :=
  "@openzeppelin/contracts/".toList.isPrefixOf path && path.all (!isQuote ·)

/-- What is checked of the tables of a family as a whole: neither a path nor a parent comes twice, all paths
are of the library, and no two lead to the file of one parent. -/
theorem gatherAll_spec (family : Family) :
    let paths := gatherAll Template.imports Fragment.imports family
    let parents := gatherAll Template.parents Fragment.parents family
    paths.Nodup ∧ parents.Nodup ∧ (∀ path ∈ paths, passes isLibraryPath path = true) ∧
      ∀ parent ∈ parents, ∀ p ∈ paths, ∀ q ∈ paths, LeadsTo p parent → LeadsTo q parent → p = q := by
  have hall : Family.all.all fun family =>
      let paths := gatherAll Template.imports Fragment.imports family
      let parents := gatherAll Template.parents Fragment.parents family
      decide (paths.Nodup ∧ parents.Nodup) && paths.all (passes isLibraryPath) &&
        parents.all fun parent => paths.all fun p => paths.all fun q =>
          p == q || passes (fun a => passesBoth (fun b c => !(leads a c && leads b c)) q parent) p := by
    decide +kernel
  intro paths parents
  have h := Family.of_all hall family
  simp only [Bool.and_eq_true, decide_eq_true_eq, List.all_eq_true] at h
  obtain ⟨⟨⟨hpaths, hparents⟩, hlibrary⟩, honly⟩ := h
  refine ⟨hpaths, hparents, hlibrary, fun parent hparent p hp q hq hleads hleads' => ?_⟩
  have h := honly parent hparent p hp q hq
  rw [Bool.or_eq_true, beq_iff_eq] at h
  refine h.resolve_right fun h => ?_
  have h := of_passesBoth (of_passes h)
  rw [leads_iff.2 hleads, leads_iff.2 hleads'] at h
  cases h

/-- The files of some parents are imported, and some calls are calls of them. -/
def isPaired (imports parents baseCalls : List String) : Bool :=
  (parents.all fun parent => imports.any fun path => passesBoth leads path parent) &&
    baseCalls.all fun call => parents.any (passesBoth calls call)

theorem of_isPaired {imports parents baseCalls : List String} (h : isPaired imports parents baseCalls = true) :
    (∀ parent ∈ parents, ∃ path ∈ imports, LeadsTo path parent) ∧
      ∀ call ∈ baseCalls, ∃ parent ∈ parents, CallsParent parent call := by
  simp only [isPaired, Bool.and_eq_true, List.all_eq_true, List.any_eq_true] at h
  refine ⟨fun parent hparent => ?_, fun call hcall => ?_⟩
  · obtain ⟨path, hpath, hleads⟩ := h.1 parent hparent
    exact ⟨path, hpath, leads_iff.1 (of_passesBoth hleads)⟩
  · obtain ⟨parent, hparent, hcalls⟩ := h.2 call hcall
    exact ⟨parent, hparent, callsParent_of_calls (of_passesBoth hcalls)⟩

theorem isPaired_base (family : Family) : isPaired (Template.of family).imports
    (Template.of family).parents (Template.of family).baseCalls = true := by
  have hall : Family.all.all fun family => isPaired (Template.of family).imports
      (Template.of family).parents (Template.of family).baseCalls := by decide +kernel
  exact Family.of_all hall family

theorem isPaired_fragment (family : Family) (feature : Feature) :
    isPaired (Fragment.of (some family) feature).imports (Fragment.of (some family) feature).parents
      (Fragment.of (some family) feature).baseCalls = true := by
  have hall : Family.all.all fun family => Feature.all.all fun feature =>
      isPaired (Fragment.of (some family) feature).imports (Fragment.of (some family) feature).parents
        (Fragment.of (some family) feature).baseCalls := by decide +kernel
  exact Feature.of_all (Family.of_all hall family) feature

/-- The lines that a source begins with. -/
def notice : List Char :=
  "// SPDX-License-Identifier: MIT".toList ++ ['\n'] ++ ("pragma solidity ^0.8.20;".toList ++ ['\n'])

/-- An import behind the end of a line. -/
def importText (path : String) : List Char :=
  '\n' :: (importLine path).toList

theorem joined_importLine (path : String) (paths : List String) :
    '\n' :: (joined "\n" ((path :: paths).map importLine)).toList = (path :: paths).flatMap importText := by
  have hnewline : "\n".toList = ['\n'] := by decide
  rw [List.map_cons, joined_cons_toList, List.flatMap_map, List.flatMap_cons, hnewline]
  rfl

theorem joined_imports (a b : String) (paths : List String) :
    (joined "\n" ([a, b, ""] ++ paths.map importLine ++ [""])).toList =
      a.toList ++ ['\n'] ++ (b.toList ++ ['\n']) ++ paths.flatMap importText ++ ['\n'] := by
  have hnewline : "\n".toList = ['\n'] := by decide
  have htext : importText = fun path => '\n' :: (importLine path).toList := rfl
  simp [joined_cons_toList, List.flatMap_map, hnewline, htext]

theorem lead_toList (t : Template) : (lead t).toList = notice ++ t.imports.flatMap importText ++ ['\n'] :=
  joined_imports _ _ t.imports

theorem unquoted_append {a b : List Char} (ha : ∀ c ∈ a, isQuote c = false) (hb : ∀ c ∈ b, isQuote c = false) :
    ∀ c ∈ a ++ b, isQuote c = false := by
  rw [List.forall_mem_append]
  exact ⟨ha, hb⟩

theorem unquoted_of_passes {s : String} (h : passes (·.all (!isQuote ·)) s = true) :
    ∀ c ∈ s.toList, isQuote c = false := by
  simpa using of_passes h

/-- Nothing but the imports has a quote in it. -/
theorem unquoted_fillingOf (r : Request) {slot : Slot} (h : slot ≠ .imports) :
    ∀ c ∈ (fillingOf r slot).toList, isQuote c = false := by
  have hall : Slot.all.all fun slot =>
      passes (·.all (!isQuote ·)) (leading slot) && passes (·.all (!isQuote ·)) (separator slot) := by
    rfl
  have htexts : Family.all.all fun family => Feature.all.all fun feature => Slot.all.all fun slot =>
      slot == .imports ||
        ((Fragment.of (some family) feature).textsIn slot).all (passes (·.all (!isQuote ·))) := by decide +kernel
  by_cases hname : slot = .contractName
  · rw [hname]
    intro c hc
    have hc := r.contractName.alphanum c hc
    refine Bool.eq_false_iff.2 fun hq => ?_
    rcases (show c = '"' ∨ c = '\'' by simpa [isQuote] using hq) with rfl | rfl
    · exact absurd hc (by decide)
    · exact absurd hc (by decide)
  · have haround := Slot.of_all hall slot
    rw [Bool.and_eq_true] at haround
    refine filling_induction (P := fun s => ∀ c ∈ s, isQuote c = false) r (by simp) unquoted_append hname
      (unquoted_of_passes haround.1) (unquoted_of_passes haround.2) fun p hp s hs => ?_
    obtain ⟨feature, -, rfl⟩ := List.mem_map.1 hp
    have hslot := Slot.of_all (Feature.of_all (Family.of_all htexts r.family) feature) slot
    rw [Bool.or_eq_true, beq_iff_eq] at hslot
    exact unquoted_of_passes (List.all_eq_true.1 (hslot.resolve_left h) s hs)

theorem unquoted_tail (r : Request) : ∀ c ∈ expand (fun slot => (fillingOf r slot).toList)
    ((Template.of r.family).parts.drop 2), isQuote c = false := by
  have hall : Family.all.all fun family => ((Template.of family).parts.drop 2).all
      (Sum.elim (passes (·.all (!isQuote ·))) (· != .imports)) := by decide +kernel
  have h := List.all_eq_true.1 (Family.of_all hall r.family)
  exact expand_induction (P := fun s => ∀ c ∈ s, isQuote c = false) nofun unquoted_append
    (fun s hs => unquoted_of_passes (h _ hs)) fun slot hslot => unquoted_fillingOf r (bne_iff_ne.1 (h _ hslot))

/-- Further imports follow those of the base contract, and nothing else has a quote in it. -/
theorem source_imports (r : Request) : ∃ rest, (∀ c ∈ rest, isQuote c = false) ∧ r.compose.source.toList =
    notice ++ (gather Template.imports Fragment.imports r.family r.applied).flatMap importText ++ rest := by
  have hslot : fillingOf r .imports =
      joined "\n" ((r.applied.flatMap fun f => (Fragment.of (some r.family) f).imports).map importLine) := by
    rw [fillingOf, filling, firstSeen_gather Template.imports (gatherAll_spec r.family).1]
  have hparts : (Template.of r.family).parts = .inl (lead (Template.of r.family)) :: .inr .imports ::
    (Template.of r.family).parts.drop 2 := rfl
  have htail := unquoted_tail r
  rw [(source_toList r).1, hparts, expand, expand, hslot, lead_toList, gather, List.flatMap_append]
  cases r.applied.flatMap fun f => (Fragment.of (some r.family) f).imports with
  | nil =>
    refine ⟨'\n' :: expand (fun slot => (fillingOf r slot).toList) ((Template.of r.family).parts.drop 2), ?_, ?_⟩
    · exact List.forall_mem_cons.2 ⟨rfl, htail⟩
    · simp [joined]
  | cons path paths =>
    refine ⟨_, htail, ?_⟩
    rw [← joined_importLine]
    simp

theorem finds_importText {path : String} (h : passes isLibraryPath path = true) :
    Finds import? (importText path) [path.toList] := by
  have h := of_passes h
  rw [isLibraryPath, Bool.and_eq_true, List.isPrefixOf_iff_prefix] at h
  refine finds_importLine (fun hnil => ?_) (by simpa using h.2)
  rw [hnil, List.prefix_nil] at h
  exact absurd h.1 (by decide)

/-- A scan of the source finds what the tables import. -/
theorem imports_compose (r : Request) : imports r.compose.source =
    gather Template.imports Fragment.imports r.family r.applied := by
  have hnotice : passes isOther "// SPDX-License-Identifier: MIT" = true ∧
      passes isOther "pragma solidity ^0.8.20;" = true := by decide
  have hlines := (finds_line (of_passes hnotice.1)).append (finds_line (of_passes hnotice.2))
  have hpaths : Finds import? ((gather Template.imports Fragment.imports r.family r.applied).flatMap importText)
      ((gather Template.imports Fragment.imports r.family r.applied).flatMap fun path => [path.toList]) :=
    .flatMap fun path hpath => finds_importText ((gatherAll_spec r.family).2.2.1 path (mem_gatherAll hpath))
  obtain ⟨rest, hrest, hsource⟩ := source_imports r
  have hfound := hlines.append hpaths none rest
  rw [matchesFrom_of_unquoted hrest] at hfound
  rw [imports, hsource, allMatches]
  refine (congrArg (List.map String.ofList) hfound).trans ?_
  simp [← List.map_eq_flatMap, Function.comp_def]

/-- The header of the contract of a request. -/
def contractHeader (r : Request) : String :=
  "contract " ++ r.contractName.text ++ " is " ++
    joined ", " (gather Template.parents Fragment.parents r.family r.applied) ++ " \x7b\n"

/-- The header of its constructor. -/
def constructorHeader (r : Request) : String :=
  joined "\n" (Template.of r.family).constructorHead ++
    joined " " (gather Template.baseCalls Fragment.baseCalls r.family r.applied) ++ " \x7b\n"

theorem joined_parents (r : Request) :
    (joined ", " (gather Template.parents Fragment.parents r.family r.applied)).toList =
      (joined ", " (Template.of r.family).parents).toList ++ (fillingOf r .parents).toList := by
  have hne : (Template.of r.family).parents ≠ [] := by cases r.family <;> exact nofun
  rw [gather, joined_append_toList _ hne, fillingOf, filling,
    firstSeen_gather Template.parents (gatherAll_spec r.family).2.1]

theorem joined_baseCalls (r : Request) :
    (joined " " (gather Template.baseCalls Fragment.baseCalls r.family r.applied)).toList =
      (joined " " (Template.of r.family).baseCalls).toList ++ (fillingOf r .baseCalls).toList := by
  have hne : (Template.of r.family).baseCalls ≠ [] := by cases r.family <;> exact nofun
  rw [gather, joined_append_toList _ hne, fillingOf, filling, List.flatMap_map]

/-- The headers stand in the source, the one of the contract where the first declaration is. -/
theorem source_headers (r : Request) : ∃ before body after, r.compose.source =
    before ++ contractHeader r ++ body ++ constructorHeader r ++ after ∧ declarations before.toList = [] := by
  obtain ⟨before, after, hsource, -, hsettle, rfl⟩ := source_split r
  obtain ⟨state, parts, hparts⟩ : ∃ state parts, (Template.of r.family).parts.drop 7 =
      .inr .parents :: .inl (" \x7b\n" ++ state ++ indented 1 "") :: .inr .state ::
        .inl ("\n\n" ++ joined "\n" (Template.of r.family).constructorHead ++
          joined " " (Template.of r.family).baseCalls) :: .inr .baseCalls ::
        .inl (" \x7b\n" ++ indented 2 "") :: parts := ⟨_, _, rfl⟩
  refine ⟨String.ofList (before ++ ['\n']), state ++ indented 1 "" ++ fillingOf r .state ++ "\n\n",
    String.ofList ((indented 2 "").toList ++ expand (fun slot => (fillingOf r slot).toList) parts),
    String.toList_inj.1 ?_, ?_⟩
  · rw [hsource, hparts]
    simp only [contractHeader, constructorHeader, expand, String.toList_append, String.toList_ofList,
      joined_parents, joined_baseCalls, List.append_assoc]
    have hcontract : "contract ".toList = "contract".toList ++ [' '] := by decide
    have his : " is ".toList = ' ' :: "is ".toList := by decide
    simp only [hcontract, his, List.append_assoc, List.cons_append, List.nil_append]
  · rw [String.toList_ofList, declarations, allMatches]
    obtain ⟨before', hbefore, hpass⟩ := declarations_pass none (fun _ => rfl) hsettle ['\n']
    rw [hpass, matchesFrom]
    have hnone : declaration? before' ['\n'] = none := by simp [declaration?, hbefore]
    rw [hnone]
    rfl

/-- Every text that a fragment of an applied feature brings is in the source. -/
theorem infix_source (r : Request) {f : Feature} (hf : f ∈ r.applied) {slot : Slot} {s : String}
    (hs : s ∈ (Fragment.of (some r.family) f).textsIn slot) : s.toList <:+: r.compose.source.toList := by
  have hslot : .inr slot ∈ (Template.of r.family).parts := by cases slot <;> simp [Template.parts]
  rw [(source_toList r).1]
  exact (infix_filling r (List.mem_map_of_mem hf) hs).trans
    (infix_expand (g := fun slot => (fillingOf r slot).toList) hslot)

end Composition

/-- A scan of a composed source finds the imports of the base contract and those of the fragments of the
applied features, each once and all in the library. The header of the contract lists the parents, each once,
and each has its file among the imports; the calls in the header of the constructor are calls of them; and
all that the fragments bring is in the source. -/
theorem compose_inherits (r : Request) :
    let paths := gather Template.imports Fragment.imports r.family r.applied
    let parents := gather Template.parents Fragment.parents r.family r.applied
    imports r.compose.source = paths ∧ paths.Nodup ∧ (∀ path ∈ paths, ({} : Catalog).knows path = true) ∧
    (∃ before body after, r.compose.source =
      before ++ contractHeader r ++ body ++ constructorHeader r ++ after ∧ declarations before.toList = []) ∧
    parents.Nodup ∧ (∀ parent ∈ parents, ∃! path, path ∈ paths ∧ LeadsTo path parent) ∧
    (∀ call ∈ gather Template.baseCalls Fragment.baseCalls r.family r.applied,
      ∃ parent ∈ parents, CallsParent parent call) ∧
    ∀ f ∈ r.applied, ∀ slot, ∀ s ∈ (Fragment.of (some r.family) f).textsIn slot,
      s.toList <:+: r.compose.source.toList := by
  intro paths parents
  obtain ⟨hpaths, hparents, hlibrary, honly⟩ := gatherAll_spec r.family
  refine ⟨imports_compose r, nodup_gather hpaths, fun path hpath => ?_, source_headers r,
    nodup_gather hparents, fun parent hparent => ?_, ?_, fun f hf slot s hs => infix_source r hf hs⟩
  · have h := of_passes (hlibrary path (mem_gatherAll hpath))
    rw [isLibraryPath, Bool.and_eq_true] at h
    exact Catalog.knows_formed.2 ⟨_, List.mem_singleton_self _, List.isPrefixOf_iff_prefix.1 h.1⟩
  · obtain ⟨path, hpath, hleads⟩ := exists_gather (of_isPaired (isPaired_base r.family)).1
      (fun f => (of_isPaired (isPaired_fragment r.family f)).1) parent hparent
    refine ⟨path, ⟨hpath, hleads⟩, fun path' h => ?_⟩
    exact honly parent (mem_gatherAll hparent) path' (mem_gatherAll h.1) path (mem_gatherAll hpath) h.2 hleads
  · exact exists_gather (of_isPaired (isPaired_base r.family)).2
      fun f => (of_isPaired (isPaired_fragment r.family f)).2

end Solwright
