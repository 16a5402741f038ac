import Solwright.Compiler.Output

/-! The shape that outputs of a compiler have by its documentation: fields may be missing or null, and
what is there is of one kind. Reading an output of this shape comes to no fault. -/

namespace Solwright

section

variable {ε ε' α β : Type} {x : Except ε α}

theorem bind_eq_ok {k : α → Except ε β} {b : β} : x.bind k = .ok b ↔ ∃ a, x = .ok a ∧ k a = .ok b := by
  cases x <;> simp [Except.bind]

theorem map_eq_ok {g : α → β} {b : β} : x.map g = .ok b ↔ ∃ a, x = .ok a ∧ g a = b := by
  cases x <;> simp [Except.map]

theorem mapError_eq_ok {g : ε → ε'} {a : α} : x.mapError g = .ok a ↔ x = .ok a := by
  cases x with
  | ok b => exact ⟨fun h => congrArg _ (Except.ok.inj h), fun h => congrArg _ (Except.ok.inj h)⟩
  | error e => exact ⟨nofun, nofun⟩

end

namespace Json

def IsObject (v : Json) : Prop := ∃ ms, v = .obj ms

def IsText (v : Json) : Prop := ∃ s, v = .str s

def IsList (v : Json) : Prop := ∃ vs, v = .arr vs

/-- What stands under a key, unless there is nothing or null, has a property. -/
def MayHold (v : Json) (key : RawText) (P : Json → Prop) : Prop :=
  ∀ w, v.get? key = some w → w = .null ∨ P w

variable {v : Json} {key : RawText} {P : Json → Prop}

theorem IsObject.member (h : v.IsObject) (key : RawText) :
    v.member key = .ok ((v.get? key).getD .null) := by
  obtain ⟨ms, rfl⟩ := h
  rfl

/-- Only objects are looked into. -/
theorem member_eq_ok {w : Json} : v.member key = .ok w ↔ v.IsObject ∧ (v.get? key).getD .null = w := by
  constructor
  · intro h
    cases v with
    | obj ms => exact ⟨⟨ms, rfl⟩, Except.ok.inj h⟩
    | _ => cases h
  · rintro ⟨hv, rfl⟩
    exact hv.member key

theorem MayHold.getD (h : v.MayHold key P) :
    (v.get? key).getD .null = .null ∨ P ((v.get? key).getD .null) := by
  cases hv : v.get? key with
  | none => exact .inl rfl
  | some w => exact h w hv

theorem mayHold_empty : MayHold (.obj []) key P := by
  intro w hw
  cases hw

theorem orObject_obj (ms : List (RawText × Json)) : (obj ms).orObject = .obj ms := by
  cases ms <;> rfl

/-- An empty object stands for nothing. -/
theorem MayHold.orObject (h : v.MayHold key P) (hobject : ∀ w, P w → w.IsObject) (hempty : P (.obj [])) :
    P ((v.get? key).getD .null).orObject := by
  rcases h.getD with hw | hw
  · rw [hw]
    exact hempty
  · obtain ⟨ms, hms⟩ := hobject _ hw
    rw [hms] at hw ⊢
    rwa [orObject_obj]

theorem elementsOrNone_arr (vs : List Json) : (arr vs).elementsOrNone = .ok vs := by
  cases vs <;> rfl

/-- What stands under keys, one inside another. -/
def under (v : Json) (path : List RawText) : Json :=
  path.foldl (fun v key => (v.get? key).getD .null) v

def textOrEmpty : Json → String
  | .str s => s
  | _ => ""

theorem get?_orObject (v : Json) (key : RawText) : v.orObject.get? key = v.get? key := by
  unfold orObject
  split
  · rfl
  next hv =>
    cases v with
    | obj ms =>
      cases ms with
      | nil => rfl
      | cons m ms => exact absurd rfl hv
    | _ => rfl

end Json

namespace Output

open Json

/-- A diagnostic. Its severity may be anything. -/
structure IsDiagnostic (d : Json) : Prop where
  object : d.IsObject
  formatted : d.MayHold "formattedMessage" IsText
  plain : d.MayHold "message" IsText

/-- A cost, which a compiler writes as a numeral, as a number or in words. -/
def IsCost (v : Json) : Prop := v.IsText ∨ ∃ n, v = .int n

structure IsCreation (v : Json) : Prop where
  object : v.IsObject
  deposit : v.MayHold "codeDepositCost" IsCost
  execution : v.MayHold "executionCost" IsCost

structure IsEstimates (v : Json) : Prop where
  object : v.IsObject
  creation : v.MayHold "creation" IsCreation

structure IsCode (v : Json) : Prop where
  object : v.IsObject
  digits : v.MayHold "object" IsText

structure IsMachine (v : Json) : Prop where
  object : v.IsObject
  code : v.MayHold "bytecode" IsCode
  deployed : v.MayHold "deployedBytecode" IsCode
  estimates : v.MayHold "gasEstimates" IsEstimates

/-- What is put out for a contract. -/
structure IsEntry (v : Json) : Prop where
  object : v.IsObject
  description : v.MayHold "abi" IsList
  machine : v.MayHold "evm" IsMachine

/-- An output: diagnostics, and contracts by source unit and name. -/
structure IsOutput (v : Json) : Prop where
  object : v.IsObject
  errors : v.MayHold "errors" fun w => ∃ ds, w = .arr ds ∧ ∀ d ∈ ds, IsDiagnostic d
  contracts : v.MayHold "contracts" fun w => w.IsObject ∧
    ∀ u ∈ w.members, u.2 = .null ∨ u.2.IsObject ∧ ∀ c ∈ u.2.members, IsEntry c.2

theorem isEstimates_empty : IsEstimates (.obj []) := ⟨⟨_, rfl⟩, mayHold_empty⟩

theorem isCode_empty : IsCode (.obj []) := ⟨⟨_, rfl⟩, mayHold_empty⟩

theorem isMachine_empty : IsMachine (.obj []) :=
  ⟨⟨_, rfl⟩, mayHold_empty, mayHold_empty, mayHold_empty⟩

theorem cost?_ok {v : Json} (h : v = .null ∨ IsCost v) : ∃ r, cost? v = .ok r := by
  rcases h with rfl | ⟨s, rfl⟩ | ⟨n, rfl⟩
  · exact ⟨none, rfl⟩
  · exact ⟨_, rfl⟩
  · exact ⟨_, rfl⟩

theorem creationCosts_ok {v : Json} (hd : v.MayHold "codeDepositCost" IsCost)
    (hx : v.MayHold "executionCost" IsCost) : ∃ r, creationCosts v = .ok r := by
  obtain ⟨x, hx⟩ := cost?_ok hx.getD
  unfold creationCosts
  cases hget : v.get? "codeDepositCost" with
  | none => exact ⟨none, rfl⟩
  | some deposit =>
    obtain ⟨d, hd⟩ := cost?_ok (hd deposit hget)
    simp only [hd, hx]
    cases d with
    | none => exact ⟨none, rfl⟩
    | some d => cases x <;> exact ⟨_, rfl⟩

theorem IsEstimates.creationCosts_ok {v : Json} (h : IsEstimates v) :
    ∃ r, creationCosts ((v.get? "creation").getD .null) = .ok r := by
  rcases h.creation.getD with hv | hv
  · exact ⟨none, by rw [hv]; rfl⟩
  · exact Output.creationCosts_ok hv.deposit hv.execution

theorem IsCode.digitsOf_eq {v : Json} (h : IsCode v) :
    digitsOf ((v.get? "object").getD .null) = .ok ((v.get? "object").getD .null).textOrEmpty := by
  rcases h.digits.getD with hv | ⟨s, hv⟩
  · rw [hv]
    rfl
  · rw [hv]
    rfl

theorem IsEntry.descriptionOf_eq {v : Json} (h : IsEntry v) : descriptionOf ((v.get? "abi").getD .null) =
    .ok (if ((v.get? "abi").getD .null).isTrue then (v.get? "abi").getD .null else .arr []) := by
  rcases h.description.getD with hv | ⟨vs, hv⟩
  · rw [hv]
    rfl
  · rw [hv, descriptionOf]
    split
    · rfl
    · rfl

/-- Everything in an artifact that the compiler has made is in the entry of one contract. -/
structure IsDrawnFrom (a : Artifact) (entry : Json) : Prop where
  bytecode : a.bytecode = marked? (entry.under ["evm", "bytecode", "object"]).textOrEmpty
  deployed : a.deployedBytecode = marked? (entry.under ["evm", "deployedBytecode", "object"]).textOrEmpty
  description : a.abi = if (entry.under ["abi"]).isTrue then entry.under ["abi"] else .arr []
  costs : ∃ costs, creationCosts (entry.under ["evm", "gasEstimates", "creation"]) = .ok costs ∧
    a.depositCost = costs.map (·.1) ∧ a.executionCost = costs.map (·.2)
  gas : a.gasEstimate =
    deploymentGas (entry.under ["evm", "bytecode", "object"]).textOrEmpty a.depositCost a.executionCost
  estimates : a.gasEstimates = (entry.under ["evm", "gasEstimates"]).orObject
  methods : a.methodIdentifiers = (entry.under ["evm", "methodIdentifiers"]).orObject
  links : a.linkReferences = (entry.under ["evm", "bytecode", "linkReferences"]).orObject
  deployedLinks :
    a.deployedLinkReferences = (entry.under ["evm", "deployedBytecode", "linkReferences"]).orObject
  developerDocs : a.developerDocs = (entry.under ["devdoc"]).orObject
  userDocs : a.userDocs = (entry.under ["userdoc"]).orObject

theorem digitsOf_eq_ok {v : Json} {s : String} (h : digitsOf v = .ok s) : v.textOrEmpty = s := by
  cases v with
  | str t => exact Except.ok.inj h
  | _ =>
    unfold digitsOf at h
    split at h
    next htext => cases htext
    next =>
      split at h <;> cases h
      rfl

theorem descriptionOf_eq_ok {v w : Json} (h : descriptionOf v = .ok w) :
    w = if v.isTrue then v else .arr [] := by
  unfold descriptionOf at h
  split at h
  next htrue =>
    obtain ⟨_, -, hw⟩ := map_eq_ok.1 h
    rw [if_pos htrue, hw]
  next hfalse => rw [if_neg hfalse, ← Except.ok.inj h]

/-- Whatever an artifact is made of, it is drawn from it. -/
theorem artifact_eq_ok {entry : Json} {unit name : RawText} {warnings : List Json} {a : Artifact}
    (h : artifact unit name warnings entry = .ok a) :
    entry.IsObject ∧ a.contractName = name ∧ a.sourceName = unit ∧ IsDrawnFrom a entry := by
  unfold artifact at h
  simp only [bind, bind_eq_ok, member_eq_ok] at h
  obtain ⟨_, ⟨hentry, rfl⟩, _, ⟨-, rfl⟩, _, ⟨-, rfl⟩, _, ⟨-, rfl⟩, _, ⟨-, rfl⟩, _, ⟨-, rfl⟩, _, ⟨-, rfl⟩,
    costs, hcosts, digits, hdigits, deployed, hdeployed, _, ⟨-, rfl⟩, abi, habi, _, ⟨-, rfl⟩, _, ⟨-, rfl⟩,
    _, ⟨-, rfl⟩, _, ⟨-, rfl⟩, _, ⟨-, rfl⟩, h⟩ := h
  cases h
  have hdigits := digitsOf_eq_ok hdigits
  have hdeployed := digitsOf_eq_ok hdeployed
  simp only [get?_orObject] at hcosts hdigits hdeployed
  refine ⟨hentry, rfl, rfl, ?_⟩
  constructor <;> simp only [get?_orObject]
  · exact congrArg marked? hdigits.symm
  · exact congrArg marked? hdeployed.symm
  · exact descriptionOf_eq_ok habi
  · exact ⟨costs, hcosts, rfl, rfl⟩
  · rw [← hdigits]
    rfl
  all_goals rfl

/-- What is put out for a contract makes an artifact, which is drawn from it. -/
theorem IsEntry.artifact_ok {entry : Json} (h : IsEntry entry) (unit name : RawText)
    (warnings : List Json) : ∃ a, artifact unit name warnings entry = .ok a ∧
      a.warnings = warnings ∧ a.contractName = name ∧ IsDrawnFrom a entry := by
  have hm : IsMachine ((entry.get? "evm").getD .null).orObject :=
    h.machine.orObject (fun _ hw => hw.object) isMachine_empty
  have hc := hm.code.orObject (fun _ hw => hw.object) isCode_empty
  have hd := hm.deployed.orObject (fun _ hw => hw.object) isCode_empty
  have he := hm.estimates.orObject (fun _ hw => hw.object) isEstimates_empty
  obtain ⟨costs, hcosts⟩ := he.creationCosts_ok
  obtain ⟨a, ha, hwarnings⟩ : ∃ a, artifact unit name warnings entry = .ok a ∧ a.warnings = warnings := by
    unfold artifact
    rw [h.object.member]
    dsimp only [bind, Except.bind]
    simp only [hm.object.member, hc.object.member, hd.object.member, he.object.member, h.object.member,
      hc.digitsOf_eq, hd.digitsOf_eq, hcosts, h.descriptionOf_eq]
    exact ⟨_, rfl, rfl⟩
  obtain ⟨-, hname, -, hdrawn⟩ := artifact_eq_ok ha
  exact ⟨a, ha, hwarnings, hname, hdrawn⟩

end Output

end Solwright
