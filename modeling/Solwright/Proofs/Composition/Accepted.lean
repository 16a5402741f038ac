import Solwright.Compilation
import Solwright.Proofs.Composition.Pieces
import Solwright.Proofs.Source.Declared

/-! The contract of every request passes the structural check, and the first contract that its source
declares is the one that was asked for. -/

namespace Solwright

open Solwright.Text Solwright.Source Solwright.Composition

namespace Composition

/-- The fixed text in front of the first slot. -/
def lead (t : Template) : String :=
  joined "\n" (["// SPDX-License-Identifier: MIT", "pragma solidity ^0.8.20;", ""] ++
    t.imports.map importLine ++ [""])

/-- The fixed text between the two places of the contract's name, up to the declaration. -/
def summaryLines (t : Template) : String :=
  "\n * @dev " ++ t.summary ++ "\n */"

theorem parts_eq (t : Template) : t.parts =
    .inl (lead t) :: .inr .imports :: .inl "\n\n/**\n * @title " :: .inr .contractName ::
      .inl (summaryLines t ++ "\ncontract ") :: .inr .contractName ::
      .inl (" is " ++ joined ", " t.parents) :: t.parts.drop 7 := by
  have hsummary : summaryLines t ++ "\ncontract " = "\n * @dev " ++ t.summary ++ "\n */\ncontract " := by
    rw [summaryLines, String.append_assoc]
    rfl
  rw [hsummary]
  rfl

/-- What the text of a base contract is like up to its declaration. -/
def opensWell (t : Template) : Bool :=
  passes (fun s => contains pragmaWords s && settle true s == some true) (lead t) &&
    passes (fun s => settle false s == some false) (summaryLines t)

theorem opensWell_of (family : Family) : opensWell (Template.of family) = true := by
  have hall : Family.all.all fun family => opensWell (Template.of family) := by decide +kernel
  exact Family.of_all hall family

/-- The lines of an import of a fragment declare nothing. -/
theorem settle_importLine {family : Family} {feature : Feature} :
    ∀ path ∈ (Fragment.of (some family) feature).imports,
      settle true (importLine path).toList = some false := by
  have hall : Family.all.all fun family => Feature.all.all fun feature =>
      (Fragment.of (some family) feature).imports.all fun path =>
        passes (fun s => settle true s == some false) (importLine path) := by decide
  intro path hpath
  have hfeature := Feature.of_all (Family.of_all hall family) feature
  simpa using of_passes (List.all_eq_true.1 hfeature path hpath)

theorem settle_joined {ss : List String} (h : ∀ s ∈ ss, settle true s.toList = some false) :
    settle true (joined "\n" ss).toList = some ss.isEmpty := by
  induction ss with
  | nil => rfl
  | cons s ss ih =>
    have hs := h s List.mem_cons_self
    cases ss with
    | nil => simpa [joined] using hs
    | cons t ss =>
      have hrest := ih fun u hu => h u (List.mem_cons_of_mem s hu)
      rw [joined, String.intercalate_cons_cons, String.toList_append, String.toList_append,
        settle_append, settle_append, hs]
      exact hrest

theorem settle_imports (r : Request) :
    ∃ fresh, settle true (fillingOf r .imports).toList = some fresh := by
  refine ⟨_, settle_joined fun s hs => ?_⟩
  obtain ⟨path, hpath, rfl⟩ := List.mem_map.1 hs
  obtain ⟨p, hp, hpath⟩ := List.mem_flatMap.1 (mem_firstSeen.1 hpath)
  obtain ⟨feature, -, rfl⟩ := List.mem_map.1 hp
  exact settle_importLine path hpath

/-- A line that has begun goes on in letters and digits. -/
theorem settle_alphanum {s : List Char} (h : ∀ c ∈ s, c.isAlphanum = true) : settle false s = some false := by
  induction s with
  | nil => rfl
  | cons c s ih =>
    have hc : c ≠ '\n' := by
      rintro rfl
      exact absurd (h _ List.mem_cons_self) (by decide)
    rw [settle, beq_eq_false_iff_ne.2 hc]
    exact ih fun d hd => h d (List.mem_cons_of_mem c hd)

/-- The source for a request: text that names the language and declares nothing, then the
declaration. -/
theorem source_split (r : Request) : ∃ before after, r.compose.source.toList =
      before ++ '\n' :: ("contract".toList ++ ' ' :: (r.contractName.text.toList ++ ' ' :: after)) ∧
    pragmaWords <:+: before ∧ settle true before = some false ∧
    after = "is ".toList ++ (joined ", " (Template.of r.family).parents).toList ++
      expand (fun slot => (fillingOf r slot).toList) ((Template.of r.family).parts.drop 7) := by
  have hopen := opensWell_of r.family
  simp only [opensWell, Bool.and_eq_true] at hopen
  have hlead := of_passes hopen.1
  have hsummary := of_passes hopen.2
  simp only [Bool.and_eq_true, beq_iff_eq, contains_iff_isInfix] at hlead hsummary
  obtain ⟨fresh, himports⟩ := settle_imports r
  have htitle : settle fresh "\n\n/**\n * @title ".toList = some false := by
    have h : passes (fun s => settle true s == some false && settle false s == some false)
        "\n\n/**\n * @title " = true := by decide
    have h := of_passes h
    simp only [Bool.and_eq_true, beq_iff_eq] at h
    cases fresh with
    | true => exact h.1
    | false => exact h.2
  refine ⟨(lead (Template.of r.family)).toList ++ (fillingOf r .imports).toList ++
    "\n\n/**\n * @title ".toList ++ r.contractName.text.toList ++
    (summaryLines (Template.of r.family)).toList, _, ?_, ?_, ?_, rfl⟩
  · have hword : "\ncontract ".toList = '\n' :: ("contract".toList ++ [' ']) := by decide
    have his : " is ".toList = ' ' :: "is ".toList := by decide
    rw [(source_toList r).1, parts_eq]
    simp only [expand, String.toList_append, hword, his, List.append_assoc, List.cons_append,
      List.nil_append]
    rfl
  · simp only [List.append_assoc]
    exact hlead.1.trans (List.prefix_append _ _).isInfix
  · rw [settle_append, settle_append, settle_append, settle_append, hlead.2, Option.bind_some,
      himports, Option.bind_some, htitle, Option.bind_some, settle_alphanum r.contractName.alphanum]
    exact hsummary

end Composition

theorem Request.head_declarations (r : Request) :
    (declarations r.compose.source.toList).head? = some r.contractName.text.toList := by
  obtain ⟨before, after, hsource, -, hsettle, -⟩ := source_split r
  obtain ⟨last, hlast, hpass⟩ := declarations_pass none (fun _ => rfl) hsettle
    ('\n' :: ("contract".toList ++ ' ' :: (r.contractName.text.toList ++ ' ' :: after)))
  have hstart : r.contractName.text.toList.head?.any isIdentStart = true := by
    have h := r.contractName.head_isUpper
    cases hh : r.contractName.text.toList.head? with
    | none => rw [hh] at h; cases h
    | some c =>
      have hc : c.isUpper = true := by simpa [hh] using h
      simp [isIdentStart, isAlpha_iff.2 (.inl hc)]
  have hname : ∀ c ∈ r.contractName.text.toList, isIdentChar c = true := fun c hc => by
    simp [isIdentChar, r.contractName.alphanum c hc]
  rw [hsource, declarations, allMatches, hpass]
  exact declarations_head hlast hstart hname (show isIdentChar ' ' = false by decide)

theorem Request.firstDeclared_compose (r : Request) :
    firstDeclared? r.compose.source = some r.contractName.text := by
  simp [firstDeclared?, r.head_declarations]

theorem Request.flaws_compose (r : Request) : flaws r.compose.source = [] := by
  obtain ⟨-, hbraces, hparens⟩ := source_toList r
  have hbraces := count_of_depth (by decide) hbraces
  have hparens := count_of_depth (by decide) hparens
  simp only [Nat.zero_add] at hbraces hparens
  obtain ⟨before, after, hsource, hpragma, -⟩ := source_split r
  have h1 : contains pragmaWords r.compose.source.toList = true := by
    rw [contains_iff_isInfix, hsource]
    exact hpragma.trans (List.prefix_append _ _).isInfix
  have h2 : contains contractWord r.compose.source.toList = true := by
    have hword : contractWord = "contract".toList ++ [' '] := by decide
    rw [contains_iff_isInfix, hsource, hword]
    exact ⟨before ++ ['\n'], r.contractName.text.toList ++ ' ' :: after, by simp⟩
  have h3 : (declarations r.compose.source.toList).isEmpty = false := by
    cases hd : declarations r.compose.source.toList with
    | nil => simpa [hd] using r.head_declarations
    | cons name names => rfl
  simp [flaws, h1, h2, h3, hbraces, hparens]

theorem Request.problems_compose (r : Request) : problems r.compose.source = [] := by
  simp [problems, r.flaws_compose]

/-- The contract of every request is accepted as it is composed. -/
theorem Request.generate_eq_ok (r : Request) : r.generate = .ok r.compose := by
  simp [generate, problems, r.flaws_compose]

/-- Generating the contract of a request logs its conflicts and does nothing else. -/
theorem Session.run_generate (r : Request) (s : Session) : (Session.generate r).run s =
    (.ok r.compose, { s with journal := { s.journal with
      log := s.journal.log ++ r.compose.conflicts.map fun c => ⟨.warning, c.message⟩ } }) := by
  unfold Session.generate
  rw [r.generate_eq_ok]
  rfl

end Solwright
