import Mathlib.Data.List.Nodup
import Mathlib.Data.Nat.Find
import Solwright.Proofs.Compiler.Verdict
import Solwright.Proofs.Source.Placement

/-! Which of several contracts an artifact is made of. The order of the source decides, and the order of
the output only where the source has no say; then everything is taken from the one entry. -/

namespace Solwright

namespace Output

open Json Solwright.Source Solwright.Text

/-- The scan takes the last declaration of an orderly source among those of the contracts compiled. -/
theorem lastDeclared_eq {source : String} {last : RawText} {compiled : List RawText} (hlined : IsLined source.toList)
    (hplain : HasPlainLiterals source.toList) (h : IsLastDeclared source.toList compiled last) :
    lastDeclared source compiled = last := by
  obtain ⟨hmem, t, before, after, rfl, hd, hlatest⟩ := h
  obtain ⟨found, later, hsplit, hlater⟩ := declarations_split hlined hplain hd
  have hnone : (later.map fun n => RawText.formed (String.ofList n)).filter compiled.contains = [] := by
    refine List.filter_eq_nil_iff.2 fun n hn hcompiled => ?_
    obtain ⟨d, hmem, rfl⟩ := List.mem_map.1 hn
    obtain ⟨before', rest, hd', hlt⟩ := hlater d hmem
    have hle := hlatest before' d rest hd' (List.contains_iff_mem.1 hcompiled)
    omega
  have hkeep : compiled.contains (.formed t) = true := List.contains_iff_mem.2 hmem
  rw [lastDeclared, hsplit, List.map_append, List.map_cons, String.ofList_toList, List.filter_append,
    List.filter_cons_of_pos hkeep, hnone, List.getLast?_append]
  rfl

/-- Where the source declares none of the contracts compiled, the last of those is taken. -/
theorem lastDeclared_of_none {source : String} {compiled : List RawText} (hlined : IsLined source.toList)
    (hplain : HasPlainLiterals source.toList)
    (h : ¬∃ n ∈ compiled, IsDeclared source.toList n) :
    lastDeclared source compiled = compiled.getLast?.getD "" := by
  have hnone : ((declarations source.toList).map fun n => RawText.formed (String.ofList n)).filter
      compiled.contains = [] := by
    refine List.filter_eq_nil_iff.2 fun n hn hcompiled => ?_
    obtain ⟨d, hmem, rfl⟩ := List.mem_map.1 hn
    obtain ⟨before, rest, hd⟩ := declares_of_mem hlined hplain hmem
    exact h ⟨_, List.contains_iff_mem.1 hcompiled, _, before, rest, rfl, by rwa [String.toList_ofList]⟩
  rw [lastDeclared, hnone]
  rfl

theorem exists_isLastDeclared {s : List Char} {compiled : List RawText}
    (h : ∃ n ∈ compiled, IsDeclared s n) : ∃ last, IsLastDeclared s compiled last := by
  classical
  obtain ⟨_, hmem, t, before, after, rfl, hd⟩ := h
  let P : Nat → Prop := fun n => ∃ before name after, Declares s before name after ∧
    .formed (String.ofList name) ∈ compiled ∧ before.length = n
  have hbound : ∀ {before name after}, Declares s before name after → before.length ≤ s.length := by
    intro before name after hd
    obtain ⟨gap, -, hs⟩ := hd.text
    simp [hs]
  obtain ⟨before', name', after', hd', hmem', hlength⟩ : P (Nat.findGreatest P s.length) :=
    Nat.findGreatest_spec (hbound hd) ⟨before, t.toList, after, hd, by rwa [String.ofList_toList], rfl⟩
  refine ⟨.formed (String.ofList name'), hmem', _, before', after', rfl, by rwa [String.toList_ofList], ?_⟩
  intro b n a hb hn
  rw [hlength]
  exact Nat.le_findGreatest (hbound hb) ⟨b, n, a, hb, hn, rfl⟩

/-- Where no two contracts have one name, the entry of a name is the only one under it. -/
theorem lookup_contractsIn {v : Json} {unit : RawText} (hnodup : (compiledIn v unit).Nodup) {key : RawText}
    {w : Json} : (contractsIn v unit).lookup key = some w ↔ (key, w) ∈ contractsIn v unit := by
  refine ⟨mem_of_lookup, fun hmem => ?_⟩
  obtain ⟨u, hu, hmem'⟩ := lookup_of_mem (List.mem_map_of_mem hmem)
  have hsame : (key, u) = (key, w) := List.inj_on_of_nodup_map hnodup hmem' hmem rfl
  cases hsame
  exact hu

/-- The contract whose entry makes the artifact. -/
def chosen (source : String) (compiled : List RawText) (name : RawText) : RawText :=
  if name ∈ compiled then name else lastDeclared source compiled

theorem chosen_mem (source : String) (name : RawText) {compiled : List RawText} (hne : compiled ≠ []) :
    chosen source compiled name ∈ compiled := by
  unfold chosen
  split
  · assumption
  · exact lastDeclared_mem source hne

theorem chosen_isLastDeclared {source : String} {name : RawText} {compiled : List RawText}
    (hlined : IsLined source.toList) (hplain : HasPlainLiterals source.toList) (hname : name ∉ compiled)
    (h : ∃ n ∈ compiled, IsDeclared source.toList n) :
    IsLastDeclared source.toList compiled (chosen source compiled name) := by
  obtain ⟨last, hlast⟩ := exists_isLastDeclared h
  rw [chosen, if_neg hname, lastDeclared_eq hlined hplain hlast]
  exact hlast

/-- Where the name asked for was compiled or the source declares a contract that was, the order of the
contracts compiled does not matter. -/
theorem chosen_perm {source : String} {name : RawText} {compiled compiled' : List RawText}
    (hlined : IsLined source.toList) (hplain : HasPlainLiterals source.toList)
    (h : name ∈ compiled ∨ ∃ n ∈ compiled, IsDeclared source.toList n) (hperm : compiled'.Perm compiled) :
    chosen source compiled' name = chosen source compiled name := by
  unfold chosen
  by_cases hname : name ∈ compiled
  · rw [if_pos hname, if_pos (hperm.mem_iff.2 hname)]
  · obtain ⟨last, hlast⟩ := exists_isLastDeclared (h.resolve_left hname)
    rw [if_neg hname, if_neg fun hmem => hname (hperm.mem_iff.1 hmem),
      lastDeclared_eq hlined hplain hlast, lastDeclared_eq hlined hplain (hlast.perm hperm)]

/-- Where the source has no say, the last entry is that of the contract that is chosen. -/
theorem getLast?_of_chosen {v : Json} {unit name : RawText} {source : String} (hlined : IsLined source.toList)
    (hplain : HasPlainLiterals source.toList) (hnodup : (compiledIn v unit).Nodup)
    (hname : name ∉ compiledIn v unit) (h : ¬∃ n ∈ compiledIn v unit, IsDeclared source.toList n)
    {entry : Json} (hentry : (chosen source (compiledIn v unit) name, entry) ∈ contractsIn v unit) :
    (contractsIn v unit).getLast? = some (chosen source (compiledIn v unit) name, entry) := by
  obtain ⟨p, hlast⟩ : ∃ p, (contractsIn v unit).getLast? = some p :=
    ⟨_, List.getLast?_eq_some_getLast (List.ne_nil_of_mem hentry)⟩
  have hchosen : chosen source (compiledIn v unit) name = p.1 := by
    rw [chosen, if_neg hname, lastDeclared_of_none hlined hplain h]
    have hname := (List.getLast?_map ..).trans (congrArg (Option.map (·.1)) hlast)
    exact congrArg (fun n : Option RawText => n.getD "") hname
  have hsame : some p.2 = some entry := by
    rw [hchosen] at hentry
    exact ((lookup_contractsIn hnodup).2 (List.mem_of_getLast? hlast)).symm.trans
      ((lookup_contractsIn hnodup).2 hentry)
  rw [hlast, hchosen, ← Option.some.inj hsame]

/-- Without an error, reading an output makes an artifact of the entry of the contract that is chosen. -/
theorem IsOutput.readJson_eq {v : Json} (h : IsOutput v) {unit name : RawText} {strict : Bool}
    {source : String} (hok : ¬HasError v) (hnodup : (compiledIn v unit).Nodup)
    (hstrict : strict = true → name ∈ compiledIn v unit) {entry : Json}
    (hentry : (chosen source (compiledIn v unit) name, entry) ∈ contractsIn v unit) :
    (readJson v unit name strict source).1 =
      artifact unit (chosen source (compiledIn v unit) name) (messagesIn v "warning") entry := by
  have hne : compiledIn v unit ≠ [] := List.ne_nil_of_mem (List.mem_map_of_mem hentry)
  have hlookup := (lookup_contractsIn hnodup).2 hentry
  have hnone : (messagesIn v "error").isEmpty = true := by simpa [hasError_iff] using hok
  have hmembers : (contractsIn v unit).map (·.1) = compiledIn v unit := rfl
  have hchoose : choose unit name strict source (compiledIn v unit) =
      .ok (chosen source (compiledIn v unit) name) := by
    unfold choose chosen
    by_cases hname : name ∈ compiledIn v unit
    · rw [if_pos (List.contains_iff_mem.2 hname), if_pos hname]
    · rw [if_neg (by simpa using hname), if_neg (by simpa using fun hs => hname (hstrict hs)),
        if_neg hname]
  rw [readJson, h.ofJson_eq]
  dsimp only [read, fatal, warnings]
  simp only [messages_eq, h.compiled_eq, hmembers, hnone, if_true, select]
  rw [if_neg (by simpa using hne), hchoose]
  simp only [take, warnings, messages_eq, hlookup, Option.getD_some]

variable {v : Json} {unit name : RawText} {source : String} {strict : Bool}

/-- Without errors the artifact is that of the contract asked for if that was compiled, else of the last
one that the source declares among those compiled, else of the last one compiled. All that the compiler
has made is taken from the one entry. The order of the entries matters in the last case only. -/
theorem selection_follows_source (hv : IsOutput v) (hok : ¬HasError v) (hne : compiledIn v unit ≠ [])
    (hnodup : (compiledIn v unit).Nodup) (hlined : IsLined source.toList)
    (hplain : HasPlainLiterals source.toList) (hstrict : strict = true → name ∈ compiledIn v unit) :
    let declared := ∃ n ∈ compiledIn v unit, IsDeclared source.toList n
    ∃ a entry, (readJson v unit name strict source).1 = .ok a ∧
      (a.contractName, entry) ∈ contractsIn v unit ∧ IsDrawnFrom a entry ∧
      (name ∈ compiledIn v unit → a.contractName = name) ∧
      (name ∉ compiledIn v unit → declared →
        IsLastDeclared source.toList (compiledIn v unit) a.contractName) ∧
      (name ∉ compiledIn v unit → ¬declared →
        (contractsIn v unit).getLast? = some (a.contractName, entry)) ∧
      (name ∈ compiledIn v unit ∨ declared → ∀ v', IsOutput v' → diagnosticsIn v' = diagnosticsIn v →
        (contractsIn v' unit).Perm (contractsIn v unit) →
        (readJson v' unit name strict source).1 = .ok a) := by
  intro declared
  obtain ⟨entry, -, hentry⟩ := lookup_of_mem (chosen_mem source name hne)
  obtain ⟨a, ha, -, hname, hdrawn⟩ := (hv.isEntry hentry).artifact_ok unit
    (chosen source (compiledIn v unit) name) (messagesIn v "warning")
  refine ⟨a, entry, (hv.readJson_eq hok hnodup hstrict hentry).trans ha, hname ▸ hentry, hdrawn, ?_⟩
  rw [hname]
  refine ⟨fun hcompiled => if_pos hcompiled, chosen_isLastDeclared hlined hplain, fun hcompiled hnone =>
    getLast?_of_chosen hlined hplain hnodup hcompiled hnone hentry, ?_⟩
  intro hsettled v' hv' hdiagnostics hperm
  have hcompiled : (compiledIn v' unit).Perm (compiledIn v unit) := hperm.map _
  have hsame := chosen_perm hlined hplain hsettled hcompiled
  have hok' : ¬HasError v' := by rwa [HasError, hdiagnostics]
  have hstrict' : strict = true → name ∈ compiledIn v' unit := fun hs => hcompiled.mem_iff.2 (hstrict hs)
  have hentry' : (chosen source (compiledIn v' unit) name, entry) ∈ contractsIn v' unit := by
    rw [hsame]
    exact hperm.mem_iff.2 hentry
  rw [hv'.readJson_eq hok' (hcompiled.nodup_iff.2 hnodup) hstrict' hentry', hsame, messagesIn, hdiagnostics]
  exact ha

theorem isEntry_code (code : String) :
    IsEntry (.obj [("evm", .obj [("bytecode", .obj [("object", .str code)])])]) := by
  refine ⟨⟨_, rfl⟩, fun w hw => (by cases hw), ?_⟩
  rintro w ⟨⟩
  refine .inr ⟨⟨_, rfl⟩, ?_, fun w hw => (by cases hw), fun w hw => (by cases hw)⟩
  rintro w ⟨⟩
  refine .inr ⟨⟨_, rfl⟩, ?_⟩
  rintro w ⟨⟩
  exact .inr ⟨code, rfl⟩

theorem selection_follows_source_reordered :
    let source := "contract B \x7b\x7d\nabstract contract A is B \x7b\n    string s = \"a contract C\";\n\x7d\n"
    let entry := fun code => Json.obj [("evm", .obj [("bytecode", .obj [("object", .str code)])])]
    let output := fun contracts => Json.obj [("contracts", .obj [("M.sol", .obj contracts)])]
    let v := output [("A", entry "60"), ("B", entry "61")]
    let v' := output [("B", entry "61"), ("A", entry "60")]
    IsOutput v ∧ IsLined source.toList ∧ HasPlainLiterals source.toList ∧
      ∃ a, (readJson v "M.sol" "Main" false source).1 = .ok a ∧ a.contractName = "A" ∧
        (readJson v' "M.sol" "Main" false source).1 = .ok a := by
  intro source entry output v v'
  have hv : IsOutput v := isOutput_contracts (by simp [entry, isEntry_code])
  have hv' : IsOutput v' := isOutput_contracts (by simp [entry, isEntry_code])
  have hlined : IsLined source.toList :=
    isLined_of_declaresOnLines (of_passes (p := declaresOnLines) (by decide))
  have hplain : HasPlainLiterals source.toList :=
    hasPlainLiterals_of_linesAreCode (of_passes (p := linesAreCode) (by decide))
  have hlast : IsLastDeclared source.toList (compiledIn v "M.sol") "A" :=
    isLatest_sound (by decide) (of_passes (p := isLatest ["A", "B"] "A" 23) (by decide))
  have hdeclared : ∃ n ∈ compiledIn v "M.sol", IsDeclared source.toList n :=
    ⟨"A", hlast.1, hlast.2.imp fun t h => h.imp fun before h => h.imp fun after h => ⟨h.1, h.2.1⟩⟩
  have hnone : diagnosticsIn v = [] := rfl
  obtain ⟨a, entry, hread, -, -, -, hsource, -, hsame⟩ := @selection_follows_source v "M.sol" "Main" source
    false hv (by simp [HasError, hnone]) (by decide) (by decide) hlined hplain (by decide)
  refine ⟨hv, hlined, hplain, a, hread, ?_, ?_⟩
  · rw [← lastDeclared_eq hlined hplain (hsource (by decide) hdeclared), lastDeclared_eq hlined hplain hlast]
  · exact hsame (.inr hdeclared) v' hv' rfl (List.Perm.swap _ _ _)

/-- A literal that goes on over a line end, with a next line that begins like a declaration, is taken for
one: the artifact is not that of the last contract that the source declares. -/
theorem selection_misled_by_literal :
    let source := "contract A \x7b\x7d\ncontract B \x7b\n    string s = \"\\\ncontract A \x7b\x7d\";\n\x7d\n"
    let entry := fun code => Json.obj [("evm", .obj [("bytecode", .obj [("object", .str code)])])]
    let v := Json.obj [("contracts", .obj [("M.sol", .obj [("B", entry "61"), ("A", entry "60")])])]
    IsOutput v ∧ ¬HasError v ∧ compiledIn v "M.sol" ≠ [] ∧ (compiledIn v "M.sol").Nodup ∧
      IsLined source.toList ∧ Text.contains "//".toList source.toList = false ∧
      Text.contains "/*".toList source.toList = false ∧ .formed "Main" ∉ compiledIn v "M.sol" ∧
      IsLastDeclared source.toList (compiledIn v "M.sol") "B" ∧
      ∃ a, (readJson v "M.sol" "Main" false source).1 = .ok a ∧ a.contractName = "A" := by
  intro source entry v
  have hv : IsOutput v := isOutput_contracts (by simp [entry, isEntry_code])
  have hnone : diagnosticsIn v = [] := rfl
  have hlined : IsLined source.toList :=
    isLined_of_declaresOnLines (of_passes (p := declaresOnLines) (by decide))
  have hlast : IsLastDeclared source.toList (compiledIn v "M.sol") "B" :=
    isLatest_sound (by decide) (of_passes (p := isLatest ["B", "A"] "B" 14) (by decide))
  have hbare : ∀ w ∈ ["//", "/*"], Text.contains w.toList source.toList = false := by decide
  have hchosen : chosen source (compiledIn v "M.sol") "Main" = "A" := by decide
  obtain ⟨a, ha, -, hname, -⟩ := (isEntry_code "60").artifact_ok "M.sol" "A" (messagesIn v "warning")
  refine ⟨hv, by simp [HasError, hnone], by decide, by decide, hlined, hbare _ (by simp), hbare _ (by simp),
    by decide, hlast, a, ?_, hname⟩
  have hentry : (chosen source (compiledIn v "M.sol") "Main", entry "60") ∈ contractsIn v "M.sol" := by
    rw [hchosen]
    exact List.mem_cons_of_mem _ List.mem_cons_self
  rw [hv.readJson_eq (by simp [HasError, hnone]) (by decide) (by decide) hentry, hchosen]
  exact ha

end Output

end Solwright
