import Mathlib.Logic.Basic
import Solwright.Deployment.Arguments
import Solwright.Proofs.Compiler.Shape
import Solwright.Proofs.Json.Members
import Solwright.Proofs.Text.Raw

/-! The arguments that a constructor is given. Every input is settled on its own, by the value that the request
chooses for its name, so that the arguments stand in the order of the inputs, and so do the problems. -/

namespace Solwright

open Json

namespace Request

variable (r : Request) (name : String)

/-- The parameter of a name that is not null, the last one if there are several. -/
def givenParameter? : Option Json :=
  (r.parameters.filter fun p => Deployment.isGiven p.2).reverse.lookup (.formed name)

/-- What a request says itself under a name. -/
def ownValue? : Option Json :=
  if name = "name" then some (.str r.contractName.text)
  else if name = "symbol" then r.symbol.map fun s => .str s.text
  else none

/-- The default that the base contract has for a parameter of a name. -/
def defaultValue? : Option Json :=
  (Template.of r.family).parameters.findSome? fun p =>
    if p.name = name then p.default.map fun (n : Nat) => .int n else none

/-- The value that a request chooses for a name: a parameter, else what it says itself, else a default. -/
def chosen? : Option Json :=
  ((r.givenParameter? name).or (r.ownValue? name)).or (r.defaultValue? name)

end Request

namespace Deployment

variable {room : Nat} {r : Request}

theorem lookup_defaults (ps : List Parameter) (name : String) :
    (ps.filterMap fun p => p.default.map fun n => (RawText.formed p.name, Json.int n)).lookup (.formed name) =
      ps.findSome? fun p => if p.name = name then p.default.map fun (n : Nat) => .int n else none := by
  induction ps with
  | nil => rfl
  | cons p ps ih =>
    rw [List.filterMap_cons, List.findSome?_cons]
    cases p.default with
    | none => simpa using ih
    | some n =>
      by_cases hname : p.name = name
      · subst hname
        simp
      · have hne : (name == p.name) = false := beq_eq_false_iff_ne.2 (Ne.symm hname)
        simpa [List.lookup_cons, hne, hname] using ih

theorem lookup_own (r : Request) (name : String) : ((RawText.formed "name", Json.str r.contractName.text) ::
    r.symbol.toList.map fun s => (RawText.formed "symbol", .str s.text)).reverse.lookup (.formed name) =
      r.ownValue? name := by
  unfold Request.ownValue?
  by_cases hname : name = "name"
  · subst hname
    cases r.symbol <;> rfl
  have hne : (name == "name") = false := beq_eq_false_iff_ne.2 hname
  rw [if_neg hname]
  by_cases hsymbol : name = "symbol"
  · subst hsymbol
    cases r.symbol <;> rfl
  have hne' : (name == "symbol") = false := beq_eq_false_iff_ne.2 hsymbol
  rw [if_neg hsymbol]
  cases r.symbol <;> simp [List.lookup_cons, hne, hne']

theorem lookup_values (r : Request) (name : String) : (values r).lookup (.formed name) = r.chosen? name := by
  rw [values, lookup_putMembers, lookup_putMembers, lookup_own, lookup_defaults, ← Option.or_assoc]
  rfl

/-- An input that can be looked up: an object that has a text for its name, if it has a name. -/
structure IsNamed (v : Json) : Prop where
  object : v.IsObject
  name : v.MayHold "name" IsText

theorem isNamed_input (name type : String) : IsNamed (.obj [("name", .str name), ("type", .str type)]) :=
  ⟨⟨_, rfl⟩, fun _ hw => .inr ⟨name, (Option.some.inj hw).symm⟩⟩

/-- The name that an input goes by at a place. -/
def inputName (place : Nat) (v : Json) : String :=
  match v.get? "name" with
  | some (.str s) => if s = "" then s!"arg{place}" else s
  | _ => s!"arg{place}"

/-- What an input has for its type, an empty text where there is nothing. -/
def inputType (v : Json) : Json :=
  (v.get? "type").getD (.str "")

theorem IsNamed.ofJson_eq {v : Json} (h : IsNamed v) (place : Nat) :
    Input.ofJson place v = .ok ⟨.str (inputName place v), v.get? "type"⟩ := by
  have hname : (if ((v.get? "name").getD .null).isTrue = true then (v.get? "name").getD .null
      else .str s!"arg{place}") = .str (inputName place v) := by
    unfold inputName
    cases hget : v.get? "name" with
    | none => rfl
    | some w =>
      rcases h.name w hget with rfl | ⟨s, rfl⟩
      · rfl
      · by_cases hs : s = ""
        · subst hs
          rfl
        · rw [if_pos (by simpa [Json.isTrue] using hs)]
          exact congrArg Json.str (if_neg hs).symm
  rw [Input.ofJson, h.object.member, ← hname]
  rfl

/-- The name and the type of an input, as problems show them. -/
def spelled (place : Nat) (v : Json) : RawText :=
  RawText.formed (inputName place v) ++ " (" ++ (inputType v).display ++ ")"

/-- What is to be reported of an input: that there is no value for it, or why its value is not brought to its
type. -/
def problem? (room : Nat) (r : Request) (place : Nat) (v : Json) : Option RawText :=
  match r.chosen? (inputName place v) with
  | none => some ("Missing constructor argument: " ++ spelled place v)
  | some given =>
    match argumentFor room (inputType v) given with
    | .error (.reported reason) => some ("Invalid value for " ++ spelled place v ++ ": " ++ reason)
    | _ => none

/-- The value that is chosen for an input, brought to its type. -/
def argument? (room : Nat) (r : Request) (place : Nat) (v : Json) : Option Argument :=
  (r.chosen? (inputName place v)).bind fun given => (argumentFor room (inputType v) given).toOption

/-- Bringing the value that is chosen for an input to its type comes to an argument or to something to report. -/
def IsSettled (room : Nat) (r : Request) (place : Nat) (v : Json) : Prop :=
  ∀ given f, r.chosen? (inputName place v) = some given → argumentFor room (inputType v) given ≠ .error (.fatal f)

/-- Bringing a value to a type has ended everything. -/
def endsAll : Except Refusal Argument → Bool
  | .error (.fatal _) => true
  | _ => false

theorem ne_fatal {x : Except Refusal Argument} (h : endsAll x = false) (f : Fault) : x ≠ .error (.fatal f) := by
  rintro rfl
  cases h

theorem problem?_eq_none_iff {place : Nat} {v : Json} (h : IsSettled room r place v) :
    problem? room r place v = none ↔ (argument? room r place v).isSome = true := by
  unfold problem? argument?
  cases hchosen : r.chosen? (inputName place v) with
  | none => simp
  | some given =>
    dsimp only [Option.bind_some]
    cases hargument : argumentFor room (inputType v) given with
    | ok a => simp [Except.toOption]
    | error refusal =>
      cases refusal with
      | reported reason => simp [Except.toOption]
      | fatal f => exact absurd hargument (h given f hchosen)

/-- A tally with what becomes of one more input. -/
def Tally.with (room : Nat) (r : Request) (t : Tally) (v : Json) : Tally where
  count := t.count + 1
  arguments := t.arguments ++ (argument? room r t.count v).toList
  problems := t.problems ++ (problem? room r t.count v).toList

/-- An input as it is added, at a place. -/
def asInput (place : Nat) (v : Json) : Input :=
  ⟨.str (inputName place v), v.get? "type"⟩

theorem Tally.addAll_cons {held : List (RawText × Json)} {t : Tally} {v : Json} (h : IsNamed v)
    (ins : List Json) : t.addAll room held (v :: ins) =
      (t.addInput room held (asInput t.count v)).bind fun t' => t'.addAll room held ins := by
  rw [addAll, h.ofJson_eq]
  rfl

theorem Tally.addInput_eq {t : Tally} {v : Json} (h : IsSettled room r t.count v) :
    t.addInput room (values r) (asInput t.count v) = .ok (t.with room r v) := by
  unfold Tally.addInput Tally.with problem? argument?
  dsimp only [asInput, heldAs, Except.bind, Input.typeOrEmpty]
  rw [lookup_values]
  cases hchosen : r.chosen? (inputName t.count v) with
  | none => simp [withProblem, spelled, inputType, display]
  | some given =>
    dsimp only [Option.bind_some]
    have hsettled := h given
    unfold inputType at hsettled ⊢
    cases hargument : argumentFor room ((v.get? "type").getD (.str "")) given with
    | ok a => simp [Except.toOption]
    | error refusal =>
      cases refusal with
      | reported reason => simp [Except.toOption, withProblem, spelled, inputType, display]
      | fatal f => exact absurd hargument (hsettled f hchosen)

theorem Tally.addInput_unsettled {t : Tally} {v : Json} (h : ¬IsSettled room r t.count v) :
    ∃ type given f, argumentFor room type given = .error (.fatal f) ∧
      t.addInput room (values r) (asInput t.count v) = .error f := by
  obtain ⟨given, f, hchosen, hfatal⟩ : ∃ given f, r.chosen? (inputName t.count v) = some given ∧
      argumentFor room (inputType v) given = .error (.fatal f) := by
    simpa [IsSettled] using h
  refine ⟨inputType v, given, f, hfatal, ?_⟩
  unfold inputType at hfatal
  unfold Tally.addInput
  dsimp only [asInput, heldAs, Except.bind, Input.typeOrEmpty]
  rw [lookup_values, hchosen]
  dsimp only
  rw [hfatal]

theorem Tally.place_with (t : Tally) (v : Json) (i : Nat) : (t.with room r v).count + i = t.count + (i + 1) := by
  change t.count + 1 + i = _
  omega

/-- The tally after inputs, each of which is settled at its place. -/
theorem Tally.addAll_eq {ins : List Json} (hnamed : ∀ v ∈ ins, IsNamed v) (t : Tally)
    (h : ∀ i v, ins[i]? = some v → IsSettled room r (t.count + i) v) :
    t.addAll room (values r) ins = .ok (ins.foldl (Tally.with room r) t) := by
  induction ins generalizing t with
  | nil => rfl
  | cons v ins ih =>
    have hv : IsSettled room r t.count v := h 0 v rfl
    rw [addAll_cons (hnamed v List.mem_cons_self), addInput_eq hv]
    exact ih (fun w hw => hnamed w (List.mem_cons_of_mem v hw)) (t.with room r v) fun i w hw =>
      place_with t v i ▸ h (i + 1) w hw

/-- An input that is not settled ends everything. -/
theorem Tally.addAll_unsettled {ins : List Json} (hnamed : ∀ v ∈ ins, IsNamed v) (t : Tally) {i : Nat}
    {v : Json} (hv : ins[i]? = some v) (h : ¬IsSettled room r (t.count + i) v) :
    ∃ type given f, argumentFor room type given = .error (.fatal f) ∧ t.addAll room (values r) ins = .error f := by
  induction ins generalizing t i with
  | nil => cases hv
  | cons w ins ih =>
    rw [addAll_cons (hnamed w List.mem_cons_self)]
    by_cases hw : IsSettled room r t.count w
    · cases i with
      | zero =>
        cases hv
        exact absurd hw h
      | succ i =>
        rw [addInput_eq hw]
        exact ih (fun x hx => hnamed x (List.mem_cons_of_mem w hx)) (t.with room r w) hv (place_with t w i ▸ h)
    · obtain ⟨type, given, f, hfatal, hstep⟩ := addInput_unsettled hw
      rw [hstep]
      exact ⟨type, given, f, hfatal, rfl⟩

theorem Tally.foldl_with (r : Request) (ins : List Json) (t : Tally) :
    (ins.foldl (Tally.with room r) t).arguments =
        t.arguments ++ (ins.zipIdx t.count).filterMap (fun p => argument? room r p.2 p.1) ∧
      (ins.foldl (Tally.with room r) t).problems =
        t.problems ++ (ins.zipIdx t.count).filterMap fun p => problem? room r p.2 p.1 := by
  induction ins generalizing t with
  | nil => simp
  | cons v ins ih =>
    obtain ⟨harguments, hproblems⟩ := ih (t.with room r v)
    rw [List.foldl_cons, harguments, hproblems, List.zipIdx_cons, List.filterMap_cons, List.filterMap_cons]
    refine ⟨?_, ?_⟩
    · cases hargument : argument? room r t.count v <;> simp [Tally.with, hargument]
    · cases hproblem : problem? room r t.count v <;> simp [Tally.with, hproblem]

/-- All that is to be reported of inputs, in their order. -/
def problems (room : Nat) (r : Request) (ins : List Json) : List RawText :=
  ins.zipIdx.filterMap fun p => problem? room r p.2 p.1

/-- Where every input is settled, the problems decide between a refusal and the arguments. -/
theorem argumentsFor_eq {ins : List Json} (hnamed : ∀ v ∈ ins, IsNamed v)
    (h : ∀ place v, ins[place]? = some v → IsSettled room r place v) :
    argumentsFor room ins r = if problems room r ins = [] then
      .ok (ins.zipIdx.filterMap fun p => argument? room r p.2 p.1)
    else .error (.failure (.rejected (problems room r ins))) := by
  have hrun : Tally.addAll room (values r) {} ins = .ok (ins.foldl (Tally.with room r) {}) :=
    Tally.addAll_eq hnamed {} fun i v hv => by simpa using h i v hv
  obtain ⟨harguments, hproblems⟩ := Tally.foldl_with r ins {}
  rw [argumentsFor, hrun]
  change (if (ins.foldl (Tally.with room r) {}).problems.isEmpty = true then _ else _) = _
  rw [harguments, hproblems]
  exact if_congr List.isEmpty_iff rfl rfl

theorem getElem?_filterMap {α β : Type} {f : α → Option β} {xs : List α} (h : ∀ x ∈ xs, (f x).isSome = true)
    (i : Nat) : (xs.filterMap f)[i]? = xs[i]?.bind f := by
  induction xs generalizing i with
  | nil => rfl
  | cons x xs ih =>
    obtain ⟨y, hy⟩ := Option.isSome_iff_exists.1 (h x List.mem_cons_self)
    rw [List.filterMap_cons, hy]
    cases i with
    | zero => exact hy.symm
    | succ i => exact ih (fun z hz => h z (List.mem_cons_of_mem x hz)) i

theorem length_filterMap {α β : Type} {f : α → Option β} {xs : List α} (h : ∀ x ∈ xs, (f x).isSome = true) :
    (xs.filterMap f).length = xs.length := by
  induction xs with
  | nil => rfl
  | cons x xs ih =>
    obtain ⟨y, hy⟩ := Option.isSome_iff_exists.1 (h x List.mem_cons_self)
    rw [List.filterMap_cons, hy]
    exact congrArg Nat.succ (ih fun z hz => h z (List.mem_cons_of_mem x hz))

theorem Tally.count_addInput {held : List (RawText × Json)} {t t' : Tally} {i : Input}
    (h : t.addInput room held i = .ok t') : t'.count = t.count + 1 := by
  unfold addInput at h
  cases hheld : heldAs held i.name with
  | error f =>
    rw [hheld] at h
    cases h
  | ok found =>
    rw [hheld] at h
    dsimp only [Except.bind] at h
    split at h
    · cases h
      rfl
    · split at h
      · cases h
        rfl
      · cases h
        rfl
      · cases h

/-- Only the values that are chosen for the inputs matter. -/
theorem Tally.addAll_congr {r' : Request} {ins : List Json} (hnamed : ∀ v ∈ ins, IsNamed v) (t : Tally)
    (h : ∀ i v, ins[i]? = some v →
      r'.chosen? (inputName (t.count + i) v) = r.chosen? (inputName (t.count + i) v)) :
    t.addAll room (values r') ins = t.addAll room (values r) ins := by
  induction ins generalizing t with
  | nil => rfl
  | cons v ins ih =>
    have hstep : t.addInput room (values r') (asInput t.count v) = t.addInput room (values r) (asInput t.count v) := by
      have hchosen : r'.chosen? (inputName t.count v) = r.chosen? (inputName t.count v) := h 0 v rfl
      rw [addInput, addInput, asInput, heldAs, heldAs, lookup_values, lookup_values, hchosen]
    rw [addAll_cons (hnamed v List.mem_cons_self), addAll_cons (hnamed v List.mem_cons_self), hstep]
    cases hadded : t.addInput room (values r) (asInput t.count v) with
    | error f => rfl
    | ok t' =>
      refine ih (fun w hw => hnamed w (List.mem_cons_of_mem v hw)) t' fun i w hw => ?_
      have hplace : t'.count + i = t.count + (i + 1) := by
        rw [count_addInput hadded]
        omega
      rw [hplace]
      exact h (i + 1) w hw

theorem arguments_eq {abi : Json} {ins : List Json} (h : inputs abi = .ok ins) (r : Request) :
    arguments room abi r = argumentsFor room ins r := by
  rw [arguments, h]
  rfl

/-- Nothing is reported exactly where every input has its argument. -/
theorem problems_eq_nil_iff {ins : List Json} (h : ∀ place v, ins[place]? = some v → IsSettled room r place v) :
    problems room r ins = [] ↔ ∀ place v, ins[place]? = some v → argument? room r place v ≠ none := by
  unfold problems
  rw [List.filterMap_eq_nil_iff]
  refine ⟨fun hnone place v hv => ?_, fun hsome p hp => ?_⟩
  · have hquiet := hnone (v, place) (List.mk_mem_zipIdx_iff_getElem?.2 hv)
    exact Option.isSome_iff_ne_none.1 ((problem?_eq_none_iff (h place v hv)).1 hquiet)
  · have hv := List.mem_zipIdx_iff_getElem?.1 hp
    exact (problem?_eq_none_iff (h p.2 p.1 hv)).2 (Option.isSome_iff_ne_none.2 (hsome p.2 p.1 hv))

/-- Where every input has its argument, the arguments stand at the places of their inputs. -/
theorem arguments_inPlace {ins : List Json}
    (h : ∀ place v, ins[place]? = some v → argument? room r place v ≠ none) :
    (ins.zipIdx.filterMap fun p => argument? room r p.2 p.1).length = ins.length ∧
      ∀ place v, ins[place]? = some v →
        (ins.zipIdx.filterMap fun p => argument? room r p.2 p.1)[place]? = argument? room r place v := by
  have hsome : ∀ p ∈ ins.zipIdx, (argument? room r p.2 p.1).isSome = true := fun p hp =>
    Option.isSome_iff_ne_none.2 (h p.2 p.1 (List.mem_zipIdx_iff_getElem?.1 hp))
  refine ⟨?_, fun place v hv => ?_⟩
  · rw [length_filterMap hsome, List.length_zipIdx]
  · rw [getElem?_filterMap hsome, List.getElem?_zipIdx, hv]
    simp

end Deployment

end Solwright
