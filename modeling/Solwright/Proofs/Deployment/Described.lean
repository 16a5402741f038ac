import Mathlib.Tactic.SplitIfs
import Solwright.Deployment.Payload
import Solwright.Proofs.Compiler.Shape

/-! Preparing a deployment from a description that has the documented shape. What can go wrong, the
failures that are reported apart, lies in the values: they are beyond all bounds, or not of the types
that they are for. -/

namespace Solwright

open Json

/-- Whatever keeps a computation from its result has a property. -/
def FailsOnly {ε α : Type} (P : ε → Prop) (x : Except ε α) : Prop := ∀ e, x = .error e → P e

namespace FailsOnly

variable {room : Nat} {ε α β : Type} {P Q : ε → Prop} {x : Except ε α}

theorem ok (a : α) : FailsOnly P (.ok a : Except ε α) := nofun

theorem error {e : ε} (h : P e) : FailsOnly P (.error e : Except ε α) := by
  rintro _ ⟨⟩
  exact h

theorem bind (hx : FailsOnly P x) {k : α → Except ε β} (hk : ∀ a, FailsOnly P (k a)) :
    FailsOnly P (x.bind k) := by
  cases x with
  | error e => exact error (hx e rfl)
  | ok a => exact hk a

theorem map (hx : FailsOnly P x) (g : α → β) : FailsOnly P (x.map g) := by
  cases x with
  | error e => exact error (hx e rfl)
  | ok a => exact ok _

theorem mono (hx : FailsOnly P x) (h : ∀ e, P e → Q e) : FailsOnly Q x := fun e he => h e (hx e he)

end FailsOnly

def Fault.IsEncoding (f : Fault) : Prop := ∃ e, f = .encoding e

def Fault.IsExcess (f : Fault) : Prop := f = .tooLarge ∨ f = .outOfMemory

namespace AbiType

theorem failsOnly_within (lo hi n : Int) : FailsOnly Fault.IsEncoding (within lo hi n) := by
  unfold within
  split_ifs
  · exact .ok ()
  · exact .error ⟨_, rfl⟩

theorem failsOnly_checkInteger (signed : Bool) (bits : Nat) (v : Argument) :
    FailsOnly Fault.IsEncoding (checkInteger signed bits v) := by
  unfold checkInteger
  split
  · exact failsOnly_within _ _ _
  · exact .error ⟨_, rfl⟩

theorem failsOnly_checkScaled (signed : Bool) (bits places : Nat) (v : Argument) :
    FailsOnly Fault.IsEncoding (checkScaled signed bits places v) := by
  unfold checkScaled
  split
  · exact failsOnly_within _ _ _
  · exact .error ⟨_, rfl⟩

theorem failsOnly_checkBytes (most : Option Nat) (v : Argument) :
    FailsOnly Fault.IsEncoding (checkBytes most v) := by
  unfold checkBytes
  split
  · split_ifs
    · exact .error ⟨_, rfl⟩
    · exact .ok ()
  · exact .error ⟨_, rfl⟩

theorem failsOnly_checkBasic (base : String) (size : TypeSize) (v : Argument) :
    FailsOnly Fault.IsEncoding (checkBasic base size v) := by
  unfold checkBasic
  split
  · exact failsOnly_checkInteger _ _ _
  · exact failsOnly_checkInteger _ _ _
  · exact failsOnly_checkScaled _ _ _ _
  · exact failsOnly_checkScaled _ _ _ _
  · exact failsOnly_checkBytes _ _
  · exact failsOnly_checkBytes _ _
  · exact .ok ()
  · exact .ok ()
  · exact .ok ()
  · split_ifs
    · exact .ok ()
    · exact .error ⟨_, rfl⟩
  · exact .error ⟨_, rfl⟩

theorem failsOnly_checkEach {check : Argument → Except Fault Unit}
    (hcheck : ∀ v, FailsOnly Fault.IsEncoding (check v)) (vs : List Argument) :
    FailsOnly Fault.IsEncoding (checkEach check vs) := by
  induction vs with
  | nil => exact .ok ()
  | cons v vs ih => exact (hcheck v).bind fun _ => ih

mutual

theorem failsOnly_check : ∀ (t : AbiType) (v : Argument), FailsOnly Fault.IsEncoding (t.check v)
  | .basic base size, v => by
    rw [check]
    exact failsOnly_checkBasic base size v
  | .tuple ts, v => by
    cases v with
    | list vs =>
      rw [check]
      split_ifs
      · exact failsOnly_checkAll ts vs
      · exact .error ⟨_, rfl⟩
    | _ => exact .error ⟨_, rfl⟩
  | .array item none, v => by
    cases v with
    | list vs =>
      rw [check]
      exact failsOnly_checkEach (failsOnly_check item) vs
    | _ => exact .error ⟨_, rfl⟩
  | .array item (some n), v => by
    cases v with
    | list vs =>
      rw [check]
      refine (failsOnly_checkEach (failsOnly_check item) vs).bind fun _ => ?_
      split_ifs
      · exact .ok ()
      · exact .error ⟨_, rfl⟩
    | _ => exact .error ⟨_, rfl⟩

theorem failsOnly_checkAll : ∀ (ts : List AbiType) (vs : List Argument),
    FailsOnly Fault.IsEncoding (checkAll ts vs)
  | [], _ => .ok ()
  | _ :: _, [] => .ok ()
  | t :: ts, v :: vs => by
    rw [checkAll]
    exact (failsOnly_check t v).bind fun _ => failsOnly_checkAll ts vs

end

theorem failsOnly_encode (types : List String) (arguments : List Argument) :
    FailsOnly (fun f => f.IsEncoding ∨ ∃ reason, f = .badValue reason) (encode types arguments) := by
  unfold encode
  split
  · exact .error (.inl ⟨_, rfl⟩)
  · refine ((failsOnly_check _ _).mono fun _ => .inl).bind fun _ => ?_
    split
    · exact .error (.inr ⟨_, rfl⟩)
    split_ifs
    · exact .ok _
    · exact .error (.inl ⟨_, rfl⟩)

/-- What is encoded is assembled of arguments that have been checked, and nothing in them is refused. -/
theorem encode_eq_ok {spellings : List String} {args : List Argument} {bytes : List UInt8} :
    encode spellings args = .ok bytes ↔ ∃ ts, readAll spellings = .ok ts ∧ args.length = ts.length ∧
      checkAll ts args = .ok () ∧ Argument.illFormedAmong? args = none ∧ (tuple ts).fits (.list args) = true ∧
      bytes = assemble (writeAll ts args) := by
  unfold encode
  constructor
  · intro h
    split at h
    · cases h
    next ts hread =>
      obtain ⟨_, hcheck, h⟩ := bind_eq_ok.1 h
      rw [check] at hcheck
      split at hcheck
      next hlength =>
        split at h
        · cases h
        next hwell =>
          split_ifs at h with hfits
          exact ⟨ts, hread, hlength, hcheck, hwell, hfits, (Except.ok.inj h).symm⟩
      next => cases hcheck
  · rintro ⟨ts, hread, hlength, hcheck, hwell, hfits, rfl⟩
    rw [hread]
    dsimp only
    rw [check, if_pos hlength, hcheck, hwell]
    exact if_pos hfits

end AbiType

namespace Deployment

/-- Values that are no values of a type are reported, unless they are beyond all bounds. -/
def Refusal.IsMild : Refusal → Prop
  | .reported _ => True
  | .fatal f => f.IsExcess

theorem failsOnly_integerArgument (v : Json) : FailsOnly Refusal.IsMild (integerArgument v) := by
  unfold integerArgument
  split
  · exact .error trivial
  · exact .ok _
  · exact .ok _
  · exact .error (.inl rfl)
  · exact .error trivial
  · split
    · exact .ok _
    · exact .error trivial
  · exact .error trivial
  · exact .error trivial

theorem failsOnly_addressArgument (v : Json) : FailsOnly Refusal.IsMild (addressArgument v) := by
  unfold addressArgument
  split
  · split_ifs
    · exact .ok _
    · exact .error trivial
  · exact .error trivial

theorem failsOnly_zeroBytes (n : Int) : FailsOnly Refusal.IsMild (zeroBytes room n) := by
  rw [zeroBytes]
  split_ifs
  · exact .error (.inl rfl)
  · exact .error trivial
  · exact .error (.inr rfl)
  · exact .ok _

theorem failsOnly_bytesOfText (s : List Char) : FailsOnly Refusal.IsMild (bytesOfText s) := by
  rw [bytesOfText]
  split
  · exact .ok _
  · exact .error trivial

theorem failsOnly_bytesOfItems (vs : List Json) : FailsOnly Refusal.IsMild (bytesOfItems vs) := by
  induction vs with
  | nil => exact .ok _
  | cons v vs ih =>
    refine FailsOnly.bind ?_ fun b => ih.map _
    unfold byteOfItem
    split
    · split_ifs
      · exact .ok _
      · exact .error trivial
    · exact .ok _
    · exact .error trivial

theorem failsOnly_bytesArgument (v : Json) : FailsOnly Refusal.IsMild (bytesArgument room v) := by
  refine FailsOnly.map ?_ Argument.bytes
  split
  · exact failsOnly_bytesOfText _
  · exact failsOnly_bytesOfText _
  · exact failsOnly_zeroBytes _
  · exact failsOnly_zeroBytes _
  · exact failsOnly_bytesOfItems _
  · exact failsOnly_bytesOfItems _
  · exact .error trivial

theorem failsOnly_argument (type : String) (v : Json) : FailsOnly Refusal.IsMild (argument room type v) := by
  unfold argument
  split_ifs
  · exact failsOnly_integerArgument v
  · exact failsOnly_addressArgument v
  · exact .ok _
  · exact .ok _
  · exact failsOnly_bytesArgument v
  · exact .ok _

/-- An input of a constructor as a compiler describes it. It may have no name. -/
structure IsInput (v : Json) : Prop where
  object : v.IsObject
  name : v.MayHold "name" IsText
  type : ∃ s, v.get? "type" = some (.str s)

/-- An entry in the description of a contract. -/
structure IsItem (v : Json) : Prop where
  object : v.IsObject
  inputs : v.MayHold "inputs" fun w => ∃ vs, w = .arr vs ∧ ∀ i ∈ vs, IsInput i

def AreItems (v : Json) : Prop := ∃ vs, v = .arr vs ∧ ∀ i ∈ vs, IsItem i

theorem IsInput.ofJson_eq {v : Json} (h : IsInput v) (place : Nat) :
    ∃ name type, Input.ofJson place v = .ok ⟨.str name, some (.str type)⟩ := by
  obtain ⟨type, htype⟩ := h.type
  have hname : ∃ s, (if ((v.get? "name").getD .null).isTrue = true then (v.get? "name").getD .null
      else .str s!"arg{place}") = .str s := by
    split_ifs with htrue
    · rcases h.name.getD with hnull | hs
      · rw [hnull] at htrue
        cases htrue
      · exact hs
    · exact ⟨_, rfl⟩
  obtain ⟨name, hname⟩ := hname
  refine ⟨name, type, ?_⟩
  rw [Input.ofJson, h.object.member, ← hname, ← htype]
  rfl

theorem failsOnly_addInput (held : List (RawText × Json)) (t : Tally) (name type : String) :
    FailsOnly Fault.IsExcess (t.addInput room held ⟨.str name, some (.str type)⟩) := by
  unfold Tally.addInput
  dsimp only [heldAs, Except.bind]
  split
  · exact .ok _
  next v _ =>
    have hmild : FailsOnly Refusal.IsMild (argument room type v) := failsOnly_argument type v
    unfold argumentFor
    dsimp only [Input.typeOrEmpty, Option.getD]
    split
    · exact .ok _
    · exact .ok _
    next f hf => exact .error (hmild _ hf)

theorem failsOnly_addAll (held : List (RawText × Json)) {ins : List Json} (h : ∀ i ∈ ins, IsInput i)
    (t : Tally) : FailsOnly Fault.IsExcess (t.addAll room held ins) := by
  induction ins generalizing t with
  | nil => exact .ok _
  | cons v ins ih =>
    obtain ⟨name, type, hinput⟩ := (h v List.mem_cons_self).ofJson_eq t.count
    rw [Tally.addAll, hinput]
    exact (failsOnly_addInput held t name type).bind
      fun t' => ih (fun i hi => h i (List.mem_cons_of_mem v hi)) t'

theorem types_ok {ins : List Json} (h : ∀ i ∈ ins, IsInput i) : ∃ ts, types ins = .ok ts := by
  induction ins with
  | nil => exact ⟨[], rfl⟩
  | cons v ins ih =>
    obtain ⟨type, htype⟩ := (h v List.mem_cons_self).type
    obtain ⟨ts, hts⟩ := ih fun i hi => h i (List.mem_cons_of_mem v hi)
    exact ⟨_, by rw [types, htype, hts]; rfl⟩

theorem inputsAmong_ok {vs : List Json} (h : ∀ v ∈ vs, IsItem v) :
    ∃ ins, inputsAmong vs = .ok ins ∧ ∀ i ∈ ins, IsInput i := by
  induction vs with
  | nil => exact ⟨[], rfl, by simp⟩
  | cons v vs ih =>
    have hv := h v List.mem_cons_self
    rw [inputsAmong, hv.object.member, hv.object.member]
    dsimp only [Except.bind]
    split
    · rcases hv.inputs.getD with hins | ⟨ins, hins, hall⟩ <;> rw [hins]
      · exact ⟨[], rfl, by simp⟩
      · exact ⟨ins, elementsOrNone_arr ins, hall⟩
    · exact ih fun w hw => h w (List.mem_cons_of_mem v hw)

/-- Apart from failures, what keeps a deployment from being prepared is a value beyond all bounds, one that
is not of its type or one that is wrong in itself. -/
theorem failsOnly_payload (a : Artifact) (r : Request) (h : AreItems a.abi) :
    FailsOnly (fun f => (∃ e, f = .failure e) ∨ f.IsExcess ∨ f.IsEncoding ∨ ∃ reason, f = .badValue reason)
      (payload room a r) := by
  obtain ⟨vs, hvs, hitems⟩ := h
  obtain ⟨ins, hins, hinputs⟩ := inputsAmong_ok hitems
  obtain ⟨ts, hts⟩ := types_ok hinputs
  have hfound : inputs a.abi = .ok ins := by rw [inputs, hvs]; exact hins
  rw [payload]
  split_ifs
  · exact .error (.inl ⟨_, rfl⟩)
  · exact .error (.inl ⟨_, rfl⟩)
  rw [hfound]
  change FailsOnly _ ((argumentsFor room ins r).bind fun args => (encoded ins args).map _)
  refine FailsOnly.bind ?_ fun args => FailsOnly.map ?_ _
  · refine ((failsOnly_addAll (values r) hinputs {}).mono fun e he => .inr (.inl he)).bind fun t => ?_
    split_ifs
    · exact .ok _
    · exact .error (.inl ⟨_, rfl⟩)
  · rw [encoded, hts]
    exact (AbiType.failsOnly_encode ts args).mono fun e he => .inr (.inr he)

/-- A cost beyond all amounts is a value that is wrong in itself; the rest comes from the payload. -/
theorem summary_error_iff {a : Artifact} {r : Request} {gasPrice : Json} (chain : Json) {price : Nat}
    {f : Fault} (hprice : Wei.ofPrice gasPrice = .ok price) (hf : f.valueMessage? = none) :
    summary room a r gasPrice chain = .error f ↔ payload room a r = .error f := by
  rw [summary, hprice]
  dsimp only [Except.bind]
  cases payload room a r with
  | error f' => exact ⟨fun h => by cases h; rfl, fun h => by cases h; rfl⟩
  | ok data =>
    refine ⟨fun h => ?_, nofun⟩
    change (Wei.inEther (a.gasEstimate * price)).map _ = .error f at h
    cases hcost : Wei.inEther (a.gasEstimate * price) with
    | ok cost =>
      rw [hcost] at h
      cases h
    | error f' =>
      rw [hcost] at h
      cases h
      unfold Wei.inEther at hcost
      split_ifs at hcost
      cases hcost
      cases hf

end Deployment

end Solwright
