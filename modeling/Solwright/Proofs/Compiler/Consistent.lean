import Mathlib.Algebra.Order.Floor.Div
import Solwright.Proofs.Compiler.Verdict
import Solwright.Proofs.Text.Hex

/-! An artifact agrees with itself. Its code stands behind one mark, whether or not the compiler put one there;
and the gas for it and its size can be worked out again from what the artifact holds. -/

namespace Solwright

open Solwright.Text

/-- What stands in the place of code spells digits: nothing spells none, and a text its own hexadecimal
digits, behind a mark `0x` or without one. -/
inductive Json.SpellsCode : Json → List Char → Prop
  | nothing : SpellsCode .null []
  | bare {s : String} : AreHexDigits s.toList → SpellsCode (.str s) s.toList
  | marked {s : String} {ds : List Char} : s.toList = '0' :: 'x' :: ds → AreHexDigits ds → SpellsCode (.str s) ds

theorem Json.SpellsCode.dropHexMark {v : Json} {ds : List Char} (h : v.SpellsCode ds) :
    dropHexMark v.textOrEmpty.toList = ds := by
  cases h with
  | nothing => rfl
  | bare hds => exact hds.dropHexMark
  | marked hs => exact congrArg Text.dropHexMark hs

theorem Json.SpellsCode.withHexMark {v : Json} {ds : List Char} (h : v.SpellsCode ds)
    (hne : v.textOrEmpty ≠ "") : withHexMark v.textOrEmpty.toList = '0' :: 'x' :: ds := by
  cases h with
  | nothing => exact absurd rfl hne
  | bare hds => exact hds.withHexMark
  | marked hs =>
    refine (congrArg Text.withHexMark hs).trans ?_
    rfl

namespace Output

/-- All code in an output is left out or spells digits. -/
def HasHexCode (v : Json) : Prop :=
  ∀ u ∈ ((v.get? "contracts").getD .null).members, ∀ c ∈ u.2.members,
    ∀ key ∈ ["bytecode", "deployedBytecode"], ∃ ds, (c.2.under ["evm", key, "object"]).SpellsCode ds

/-- Code is kept as it was given: as nothing where its text is empty, else as its digits behind one mark. -/
structure KeepsCode (given : String) (digits : List Char) (kept : Option String) : Prop where
  none_iff : kept = none ↔ given = ""
  marked : ∀ s, kept = some s → s.toList = '0' :: 'x' :: digits

variable {v : Json} {unit name : RawText} {source : String} {strict : Bool} {a : Artifact} {digits : List Char}
  {kept : Option String}

theorem keepsCode_marked? (h : v.SpellsCode digits) : KeepsCode v.textOrEmpty digits (marked? v.textOrEmpty) := by
  by_cases hempty : v.textOrEmpty = ""
  · rw [hempty]
    exact ⟨⟨fun _ => rfl, fun _ => rfl⟩, nofun⟩
  · rw [marked?, if_neg (by simpa using hempty), h.withHexMark hempty]
    refine ⟨⟨nofun, fun h => absurd h hempty⟩, ?_⟩
    rintro _ ⟨⟩
    exact String.toList_ofList

/-- The digits are the same with the mark that was put in front of them. -/
theorem KeepsCode.dropHexMark (h : v.SpellsCode digits) (hkept : KeepsCode v.textOrEmpty digits kept) :
    dropHexMark (kept.getD "").toList = digits := by
  cases kept with
  | none =>
    have hdigits := h.dropHexMark
    rwa [hkept.none_iff.1 rfl] at hdigits
  | some s => exact congrArg Text.dropHexMark (hkept.marked s rfl)

/-- The gas by the number of digits, two to a byte: none without any, else that of a transaction and that of
every byte that is begun. -/
def gasOf (digits : List Char) : Nat :=
  if digits = [] then 0 else 21000 + 200 * (digits.length ⌈/⌉ 2)

/-- A mark in front of the digits does not count. -/
theorem deploymentGas_eq {code : String} (h : dropHexMark code.toList = digits) (deposit execution : Option Int) :
    deploymentGas code deposit execution = match deposit, execution with
      | some d, some x => d + x
      | _, _ => gasOf digits := by
  have hsize : (if digits.length = 0 then 0
      else ((baseTransactionGas + gasPerByte * ((digits.length + 1) / 2) : ℕ) : Int)) = gasOf digits := by
    simp only [gasOf, List.length_eq_zero_iff]
    split <;> rfl
  unfold deploymentGas
  rw [h]
  cases deposit with
  | none => exact hsize
  | some d =>
    cases execution with
    | none => exact hsize
    | some x => rfl

theorem size_eq (h : v.SpellsCode digits) (hkept : KeepsCode v.textOrEmpty digits a.deployedBytecode) :
    a.size = digits.length / 2 := by
  cases hcode : a.deployedBytecode with
  | none =>
    have hdigits := hkept.dropHexMark h
    rw [hcode] at hdigits
    rw [Artifact.size, hcode, ← hdigits]
    rfl
  | some s =>
    have hs := hkept.marked s hcode
    rw [Artifact.size, hcode, Option.getD_some, hs]
    rfl

/-- Where all code spells digits, an artifact is made of the entry of its contract in such a way that the two
costs are there together or not at all; its code is the digits put out, behind one mark, and is left out exactly
where the text for it is empty; the gas estimated for it is that of its own code and costs, and without costs
that of the digits; and its size is that of all bytes that the digits complete. -/
theorem artifact_consistent (hv : HasHexCode v) (h : (readJson v unit name strict source).1 = .ok a) :
    ∃ entry digits deployedDigits,
      let code := entry.under ["evm", "bytecode", "object"]
      let deployed := entry.under ["evm", "deployedBytecode", "object"]
      (contractsIn v unit).lookup a.contractName = some entry ∧
      code.SpellsCode digits ∧ deployed.SpellsCode deployedDigits ∧
      (a.depositCost = none ↔ a.executionCost = none) ∧
      KeepsCode code.textOrEmpty digits a.bytecode ∧
      KeepsCode deployed.textOrEmpty deployedDigits a.deployedBytecode ∧
      deploymentGas (a.bytecode.getD "") a.depositCost a.executionCost = a.gasEstimate ∧
      (a.depositCost = none → a.gasEstimate = gasOf digits) ∧
      a.size = deployedDigits.length / 2 := by
  obtain ⟨entry, hlookup, hdrawn⟩ := readJson_eq_ok h
  obtain ⟨u, hu, hentry⟩ := exists_unit (mem_of_lookup hlookup)
  obtain ⟨digits, hcode⟩ := hv u hu _ hentry "bytecode" (by simp)
  obtain ⟨deployedDigits, hdeployed⟩ := hv u hu _ hentry "deployedBytecode" (by simp)
  have hkeeps : KeepsCode _ digits a.bytecode := hdrawn.bytecode ▸ keepsCode_marked? hcode
  have hkeeps' : KeepsCode _ deployedDigits a.deployedBytecode := hdrawn.deployed ▸ keepsCode_marked? hdeployed
  obtain ⟨costs, -, hdeposit, hexecution⟩ := hdrawn.costs
  refine ⟨entry, digits, deployedDigits, hlookup, hcode, hdeployed, ?_, hkeeps, hkeeps', ?_, fun hnone => ?_,
    size_eq hdeployed hkeeps'⟩
  · simp [hdeposit, hexecution]
  · rw [deploymentGas_eq (hkeeps.dropHexMark hcode), hdrawn.gas, deploymentGas_eq hcode.dropHexMark]
  · rw [hdrawn.gas, deploymentGas_eq hcode.dropHexMark, hnone]

theorem artifact_consistent_odd :
    let entry := Json.obj [("evm", .obj [("bytecode", .obj [("object", .str "0x608")]),
      ("deployedBytecode", .obj [("object", .str "6080F")]),
      ("gasEstimates", .obj [("creation", .obj [("codeDepositCost", .int 100),
        ("executionCost", .str "infinite")])])])]
    let v := Json.obj [("contracts", .obj [("A.sol", .obj [("A", entry)])])]
    HasHexCode v ∧ ∃ a, (readJson v "A.sol" "A" true "").1 = .ok a ∧ a.bytecode = some "0x608" ∧
      a.deployedBytecode = some "0x6080F" ∧ a.depositCost = none ∧ a.executionCost = none ∧
      a.gasEstimate = 21400 ∧ a.size = 2 := by
  intro entry v
  have hv : HasHexCode v := by
    intro u hu c hc key hkey
    obtain rfl : u = (.formed "A.sol", .obj [("A", entry)]) := List.mem_singleton.1 hu
    obtain rfl : c = (.formed "A", entry) := List.mem_singleton.1 hc
    rcases List.mem_pair.1 hkey with rfl | rfl
    · exact ⟨['6', '0', '8'], .marked (by decide) (by decide)⟩
    · exact ⟨_, .bare (by decide)⟩
  obtain ⟨a, ha, hname, hcode, hdeployed, hdeposit⟩ : ∃ a, (readJson v "A.sol" "A" true "").1 = .ok a ∧
      a.contractName = "A" ∧ a.bytecode = some "0x608" ∧ a.deployedBytecode = some "0x6080F" ∧
      a.depositCost = none := ⟨_, rfl, rfl, rfl, rfl, rfl⟩
  obtain ⟨found, digits, deployedDigits, hfound, hdigits, hdigits', hcosts, -, -, -, hgas, hsize⟩ :=
    artifact_consistent hv ha
  rw [hname] at hfound
  obtain rfl : entry = found := Option.some.inj hfound
  have hbare : dropHexMark "0x608".toList = ['6', '0', '8'] ∧
      dropHexMark "6080F".toList = ['6', '0', '8', '0', 'F'] := by decide
  obtain rfl : ['6', '0', '8'] = digits := hbare.1.symm.trans hdigits.dropHexMark
  obtain rfl : ['6', '0', '8', '0', 'F'] = deployedDigits := hbare.2.symm.trans hdigits'.dropHexMark
  exact ⟨hv, a, ha, hcode, hdeployed, hdeposit, hcosts.1 hdeposit, hgas hdeposit, hsize⟩

end Output

end Solwright
