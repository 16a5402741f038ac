import Solwright.Proofs.Composition.Pieces
import Solwright.Proofs.Source.Defined

/-! The functions that a composed contract defines, as a scan of its source finds them: those of the base
contract and then those of the fragments. Every text that is put together can be scanned on its own, and
only the functions themselves have definitions in them. -/

namespace Solwright

open Solwright.Text Solwright.Source Solwright.Composition

namespace Composition

/-- A text that defines some functions. -/
def defines (names : List String) (s : List Char) : Bool :=
  (functions s).map String.ofList == names

theorem functions_of_defines {names : List String} {s : List Char} (h : defines names s = true) :
    functions s = names.map String.toList := by
  rw [← beq_iff_eq.1 h, List.map_map]
  exact (List.map_id'' (fun _ => String.toList_ofList) _).symm

/-- A text that is scanned on its own and defines some functions. -/
def definesOnly (names : List String) (s : List Char) : Bool :=
  isSettled s && defines names s

theorem finds_of_definesOnly {names : List String} {s : String}
    (hs : passes (definesOnly names) s = true) :
    Finds function? s.toList (names.map String.toList) := by
  have h := of_passes hs
  rw [definesOnly, Bool.and_eq_true] at h
  rw [← functions_of_defines h.2]
  exact finds_of_isSettled h.1

/-- A function of a contract, indented as a member, is all that its text defines. -/
def isMember (m : Method) : Bool :=
  passes (definesOnly [m.name]) (indented 1 m.text)

theorem finds_member {m : Method} (h : isMember m = true) :
    Finds function? ((indented 1 "").toList ++ m.text.toList) [m.name.toList] := by
  have hfinds := finds_of_definesOnly h
  have hindent : indented 1 m.text = indented 1 "" ++ m.text := by
    rw [indented, indented, String.append_empty]
  rwa [hindent, String.toList_append] at hfinds

/-- What is checked of the texts that the fragments bring. -/
theorem fragment_defines (family : Family) (feature : Feature) :
    (∀ m ∈ (Fragment.of (some family) feature).methods, isMember m = true) ∧
    ∀ slot, slot ≠ .methods → ∀ s ∈ (Fragment.of (some family) feature).textsIn slot,
      passes (definesOnly []) s = true := by
  have hall : Family.all.all fun family => Feature.all.all fun feature =>
      (Fragment.of (some family) feature).methods.all isMember && Slot.all.all fun slot =>
        slot == .methods ||
          ((Fragment.of (some family) feature).textsIn slot).all (passes (definesOnly [])) := by
    decide +kernel
  have h := Feature.of_all (Family.of_all hall family) feature
  rw [Bool.and_eq_true] at h
  refine ⟨List.all_eq_true.1 h.1, fun slot hslot => ?_⟩
  have hs := Slot.of_all h.2 slot
  rw [Bool.or_eq_true, beq_iff_eq] at hs
  exact List.all_eq_true.1 (hs.resolve_left hslot)

/-- The base contract of a family up to where the functions of the fragments come. -/
def opening (t : Template) : List (String ⊕ Slot) :=
  t.parts.take 14 ++ [.inl (joined "" (t.statements.map fun l => "\n" ++ indented 2 l) ++
    "\n    \x7d\n\n" ++ joined "" (t.methods.map fun m => indented 1 m.text ++ "\n\n"))]

theorem expand_parts (g : Slot → List Char) (t : Template) : expand g t.parts =
    expand g (opening t) ++ ((indented 1 "").toList ++ g .methods ++ "\n\x7d\n".toList) := by
  have hparts : t.parts = t.parts.take 14 ++ [.inl (joined "" (t.statements.map fun l => "\n" ++ indented 2 l) ++
      "\n    \x7d\n\n" ++ joined "" (t.methods.map fun m => indented 1 m.text ++ "\n\n") ++ indented 1 ""),
      .inr .methods, .inl "\n\x7d\n"] := rfl
  rw [hparts, expand_append, opening, expand_append]
  simp only [expand, String.toList_append, List.append_assoc, List.append_nil]

/-- The functions that the fixed text of parts defines. -/
def fixedFunctions : List (String ⊕ Slot) → List String
  | [] => []
  | .inl s :: parts => (functions (asciiChars (bytes s))).map String.ofList ++ fixedFunctions parts
  | .inr _ :: parts => fixedFunctions parts

theorem finds_expand {g : Slot → List Char} {parts : List (String ⊕ Slot)}
    (hparts : ∀ s, .inl s ∈ parts → passes isSettled s = true)
    (hg : ∀ slot, .inr slot ∈ parts → Finds function? (g slot) []) :
    Finds function? (expand g parts) ((fixedFunctions parts).map String.toList) := by
  induction parts with
  | nil => exact .nil
  | cons part parts ih =>
    have ih := ih (fun s hs => hparts s (List.mem_cons_of_mem part hs))
      fun slot hslot => hg slot (List.mem_cons_of_mem part hslot)
    cases part with
    | inl s =>
      have hs := hparts s List.mem_cons_self
      have hdefines : passes (definesOnly ((functions (asciiChars (bytes s))).map String.ofList)) s = true := by
        rw [passes, Bool.and_eq_true] at hs ⊢
        rw [definesOnly, defines, hs.2, beq_self_eq_true]
        exact ⟨hs.1, rfl⟩
      rw [fixedFunctions, List.map_append]
      exact (finds_of_definesOnly hdefines).append ih
    | inr slot => exact (hg slot List.mem_cons_self).append ih

/-- What is checked of the base contracts. -/
theorem opening_defines (family : Family) :
    (∀ s, .inl s ∈ opening (Template.of family) → passes isSettled s = true) ∧
    (∀ slot, .inr slot ∈ opening (Template.of family) → slot ≠ .methods) ∧
    fixedFunctions (opening (Template.of family)) = (Template.of family).methods.map (·.name) := by
  have hall : Family.all.all fun family =>
      (opening (Template.of family)).all (Sum.elim (passes isSettled) (· != .methods)) &&
      fixedFunctions (opening (Template.of family)) == (Template.of family).methods.map (·.name) := by
    decide +kernel
  have h := Family.of_all hall family
  rw [Bool.and_eq_true, beq_iff_eq, List.all_eq_true] at h
  exact ⟨fun s hs => h.1 _ hs, fun slot hslot => bne_iff_ne.1 (h.1 _ hslot), h.2⟩

theorem finds_around (slot : Slot) :
    Finds function? (leading slot).toList [] ∧ Finds function? (separator slot).toList [] := by
  have hall : Slot.all.all fun slot =>
      passes (definesOnly []) (leading slot) && passes (definesOnly []) (separator slot) := by
    decide +kernel
  have h := Slot.of_all hall slot
  rw [Bool.and_eq_true] at h
  exact ⟨finds_of_definesOnly h.1, finds_of_definesOnly h.2⟩

theorem finds_fillingOf (r : Request) {slot : Slot} (h : slot ≠ .methods) :
    Finds function? (fillingOf r slot).toList [] := by
  by_cases hname : slot = .contractName
  · rw [hname]
    refine finds_word (fun c hc => isWord_of_isAlphanum (r.contractName.alphanum c hc)) fun hhead => ?_
    have hupper := r.contractName.head_isUpper
    rw [show r.contractName.text.toList.head? = some 'f' from hhead] at hupper
    exact absurd hupper (by decide)
  · obtain ⟨hleading, hsep⟩ := finds_around slot
    refine filling_induction (P := (Finds function? · [])) r .nil (fun ha hb => ha.append hb) hname hleading
      hsep fun p hp s hs => ?_
    obtain ⟨feature, -, rfl⟩ := List.mem_map.1 hp
    exact finds_of_definesOnly ((fragment_defines r.family feature).2 slot h s hs)

/-- The functions of the fragments, indented as members. -/
theorem finds_methods (r : Request) :
    Finds function? ((indented 1 "").toList ++ (fillingOf r .methods).toList)
      ((r.applied.flatMap fun f => (Fragment.of (some r.family) f).methods).map (·.name.toList)) := by
  have hms : ∀ m ∈ r.applied.flatMap fun f => (Fragment.of (some r.family) f).methods,
      isMember m = true := by
    intro m hm
    obtain ⟨f, -, hm⟩ := List.mem_flatMap.1 hm
    exact (fragment_defines r.family f).1 m hm
  have hbetween : passes (definesOnly []) "\n\n" = true ∧ passes (definesOnly []) (indented 1 "") = true := by
    decide +kernel
  have hsep : "\n\n    ".toList = "\n\n".toList ++ (indented 1 "").toList := by decide +kernel
  rw [fillingOf, filling, List.flatMap_map]
  generalize r.applied.flatMap (fun f => (Fragment.of (some r.family) f).methods) = ms at hms
  cases ms with
  | nil => exact (finds_of_definesOnly hbetween.2).append .nil
  | cons m ms =>
    rw [List.forall_mem_cons] at hms
    rw [List.map_cons, joined_cons_toList, List.flatMap_map, ← List.append_assoc, List.map_cons, hsep]
    refine (finds_member hms.1).append (y := ms.map (·.name.toList)) ?_
    rw [List.map_eq_flatMap]
    refine .flatMap fun m hm => ?_
    rw [List.append_assoc]
    exact (finds_of_definesOnly hbetween.1).append (finds_member (hms.2 m hm))

end Composition

/-- The functions that a composed contract defines are those of its base contract and then those of the
fragments of the applied features. -/
theorem Request.functions_compose (r : Request) : functions r.compose.source.toList =
    ((Template.of r.family).methods ++
      r.applied.flatMap fun f => (Fragment.of (some r.family) f).methods).map (·.name.toList) := by
  obtain ⟨hsettled, hslots, hnames⟩ := opening_defines r.family
  have hopening := finds_expand (g := fun slot => (fillingOf r slot).toList) hsettled
    fun slot hslot => finds_fillingOf r (hslots slot hslot)
  have hend : passes (definesOnly []) "\n\x7d\n" = true := by decide +kernel
  have hsource := (source_toList r).1
  rw [expand_parts] at hsource
  rw [hsource, functions,
    (hopening.append ((finds_methods r).append (finds_of_definesOnly hend))).allMatches_eq, hnames]
  simp

end Solwright
