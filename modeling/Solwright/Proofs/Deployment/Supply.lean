import Solwright.Proofs.Deployment.Integers
import Solwright.Proofs.Json.Short
import Solwright.Proofs.Suggestion.Replies

/-! A suggested supply on its way into a deployment. It is kept as it was given, so it is an argument of a
constructor exactly if it is a numeral, which nothing but its being a number in the reply makes sure of. -/

namespace Solwright

open Json Number Text

/-- A text is a numeral; one with half a surrogate pair on its own never is. -/
def RawText.IsNumeral : RawText → Int → Prop
  | .formed s, n => Number.IsNumeral s.toList n
  | .illFormed _, _ => False

theorem RawText.isGiven_json (s : RawText) : Deployment.isGiven s.json = true := by cases s <;> rfl

namespace Suggestion

variable {g : Suggestion} {supply : RawText} {parameters : List (RawText × Json)}

/-- The supply is what a request chooses for its name, unless a parameter has that name. -/
theorem chosen?_toRequest (hsupply : g.initialSupply = some supply)
    (hparameters : parameters.lookup (.formed "initialSupply") = none) :
    (g.toRequest parameters).chosen? "initialSupply" = some supply.json := by
  have hall : (g.toRequest parameters).parameters =
      putMembers [(.formed "initialSupply", supply.json)] parameters := by
    simp [toRequest, hsupply]
  have hnone : ∀ m ∈ parameters, m.1 ≠ .formed "initialSupply" := by
    intro m hm heq
    have hne := List.lookup_eq_none_iff.1 hparameters m hm
    simp [heq] at hne
  have hgiven : (g.toRequest parameters).givenParameter? "initialSupply" = some supply.json := by
    refine lookup_of_forall ?_ fun m hm hname => ?_
    · have hlookup : parameters.reverse.lookup (.formed "initialSupply") = none := by
        refine List.lookup_eq_none_iff.2 fun m hm => ?_
        simpa using (hnone m (List.mem_reverse.1 hm)).symm
      have hfound := lookup_putMembers [(.formed "initialSupply", supply.json)] parameters (.formed "initialSupply")
      rw [hlookup, Option.none_or] at hfound
      rw [List.mem_reverse, List.mem_filter, hall]
      exact ⟨mem_of_lookup hfound, supply.isGiven_json⟩
    · rw [List.mem_reverse, List.mem_filter, hall] at hm
      rcases mem_putMembers hm.1 with hm | hm
      · rw [List.mem_singleton.1 hm]
      · exact absurd hname (hnone m hm)
  rw [Request.chosen?, hgiven]
  rfl

/-- The object of a reply that makes a suggestion. -/
theorem says_of_ofReply {limit : Nat} {reply : String} (h : ofReply limit (some reply) = .ok g) :
    ∃ ms, Json.read limit (stripFences reply.toList) = .ok (.obj ms) ∧ Says ms g := by
  have hne : reply.toList ≠ [] := by
    intro hnil
    rw [String.toList_eq_nil_iff.1 hnil] at h
    cases h
  rw [← String.ofList_toList (s := reply), ofReply_eq hne] at h
  split at h
  next v hread =>
    cases v with
    | obj ms => exact ⟨ms, hread, ofReplyValue_eq_ok.1 h⟩
    | _ => cases h
  next => cases h

end Suggestion

namespace Deployment

/-- What becomes of a supply at an input for it. -/
structure TakesSupply (room : Nat) (abi : Json) (r : Request) (place : Nat) (v : Json) (supply : RawText) : Prop where
  /-- Nothing is reported exactly if it is a numeral. -/
  reported : problem? room r place v = none ↔ ∃ n, supply.IsNumeral n
  /-- A numeral is an argument by its value. -/
  returned : ∀ n, supply.IsNumeral n → argument? room r place v = some (.int n) ∧
    ∀ args, arguments room abi r = .ok args → args[place]? = some (.int n)
  /-- Anything else is reported, so that there are no arguments. -/
  refused : (¬∃ n, supply.IsNumeral n) →
    (∃ reason, problem? room r place v = some ("Invalid value for initialSupply (uint256): " ++ reason)) ∧
    ∀ args, arguments room abi r ≠ .ok args

variable {room : Nat} {r : Request} {ins : List Json} {place : Nat} {v : Json} {supply : RawText}

theorem denotes_of_isNumeral {n : Int} (h : supply.IsNumeral n) : supply.json.Denotes n := by
  cases supply with
  | formed s => exact .numeral h
  | illFormed codes => exact h.elim

theorem exists_denotes_json : (∃ q, supply.json.Denotes q) ↔ ∃ n, supply.IsNumeral n := by
  constructor
  · rintro ⟨q, hq⟩
    cases supply with
    | formed s =>
      cases hq with
      | numeral hn => exact ⟨_, hn⟩
    | illFormed codes => cases hq
  · rintro ⟨n, hn⟩
    exact ⟨n, denotes_of_isNumeral hn⟩

theorem json_ne_infinite (supply : RawText) (negative : Bool) : supply.json ≠ .float (.infinite negative) := by
  cases supply <;> nofun

theorem problem?_supply (hname : inputName place v = "initialSupply") (htype : v.get? "type" = some (.str "uint256"))
    (hchosen : r.chosen? "initialSupply" = some supply.json) :
    problem? room r place v = none ↔ ∃ n, supply.IsNumeral n := by
  have hinteger : IsInteger v false 256 := ⟨by decide, htype⟩
  rw [problem?_integer hinteger, hname, hchosen, ← exists_denotes_json]
  simp [json_ne_infinite]

theorem takesSupply {abi : Json} (hins : inputs abi = .ok ins) (hnamed : ∀ v ∈ ins, IsNamed v)
    (hv : ins[place]? = some v) (hname : inputName place v = "initialSupply")
    (htype : v.get? "type" = some (.str "uint256")) (hchosen : r.chosen? "initialSupply" = some supply.json) :
    TakesSupply room abi r place v supply := by
  have hinteger : IsInteger v false 256 := ⟨by decide, htype⟩
  have hargument : ∀ n, supply.IsNumeral n → argument? room r place v = some (.int n) := by
    intro n hn
    refine (argument?_integer hinteger).2 ⟨_, _, hname ▸ hchosen, denotes_of_isNumeral hn, ?_⟩
    rw [cut_intCast]
  have hplace : ∀ args, arguments room abi r = .ok args →
      args[place]? = argument? room r place v ∧ argument? room r place v ≠ none :=
    fun args hargs => (arguments_of_ok hnamed (arguments_eq hins r ▸ hargs)).2 place v hv
  refine ⟨problem?_supply hname htype hchosen, fun n hn => ⟨hargument n hn, fun args hargs => ?_⟩, fun hno => ⟨?_, ?_⟩⟩
  · rw [(hplace args hargs).1, hargument n hn]
  · obtain ⟨problem, hproblem⟩ := Option.ne_none_iff_exists'.1 (hno ∘ (problem?_supply hname htype hchosen).1)
    have hspelled : spelled place v = "initialSupply (uint256)" := by
      rw [spelled, hname, inputType, htype]
      decide
    rw [hproblem]
    unfold problem? at hproblem
    rw [hname, hchosen, hspelled] at hproblem
    dsimp only at hproblem
    split at hproblem
    next reason _ => exact ⟨reason, hproblem.symm⟩
    next => cases hproblem
  · intro args hargs
    obtain ⟨a, ha⟩ := Option.ne_none_iff_exists'.1 (hplace args hargs).2
    obtain ⟨given, q, hgiven, hq, -⟩ := (argument?_integer hinteger).1 ha
    rw [hname, hchosen, Option.some_inj] at hgiven
    subst hgiven
    exact hno (exists_denotes_json.1 ⟨q, hq⟩)

/-- A suggested supply is a number of the reply, which is written as a numeral, or a text of any kind, which is
kept as it is. Where no parameter replaces it, an input for it takes it exactly if it is a numeral, and any other
one is the problem that is reported of that input. -/
theorem suggested_supply_taken {reply : String} {g : Suggestion} {limit : Nat}
    (hreply : Suggestion.ofReply limit (some reply) = .ok g)
    (hsupply : g.initialSupply = some supply) {parameters : List (RawText × Json)}
    (hparameters : parameters.lookup (.formed "initialSupply") = none) {abi : Json} (hins : inputs abi = .ok ins)
    (hnamed : ∀ v ∈ ins, IsNamed v) :
    let r := g.toRequest parameters
    (∃ ms given, Json.read limit (stripFences reply.toList) = .ok (.obj ms) ∧
      ms.lookup (.formed "initialSupply") = some given ∧
      (given = supply.json ∨ ∃ n, given = .int n ∧ supply.IsNumeral n)) ∧
    g.requestWith (.obj parameters) = .ok r ∧
    (∀ ps, arguments room abi r = .error (.failure (.rejected ps)) → ps = problems room r ins) ∧
    ∀ place v, ins[place]? = some v → inputName place v = "initialSupply" →
      v.get? "type" = some (.str "uint256") → TakesSupply room abi r place v supply := by
  refine ⟨?_, g.requestWith_obj parameters, fun ps hps => ?_, fun place v hv hname htype => ?_⟩
  · obtain ⟨ms, hread, hsaid⟩ := Suggestion.says_of_ofReply hreply
    obtain ⟨given, hgiven, hkept⟩ := hsaid.initialSupply
    rw [hsupply] at hkept
    refine ⟨ms, given, hread, hgiven, ?_⟩
    cases hkept with
    | int n => exact .inr ⟨n, rfl, isNumeral_integerText (isShort_of_read hread hgiven)⟩
    | text => exact .inl rfl
  · exact problems_of_rejected hnamed (arguments_eq hins _ ▸ hps)
  · exact takesSupply hins hnamed hv hname htype (Suggestion.chosen?_toRequest hsupply hparameters)

/-- The text of an object with a supply that is no number. -/
def lotsReply : String :=
  "\x7b\"family\":\"erc20\",\"contractName\":\"Widget\",\"symbol\":null,\"initialSupply\":\"lots\"," ++
    "\"features\":[],\"reasoning\":\"a token\"\x7d"

/-- Whether a reply makes a suggestion with that supply. -/
def suggestsLots (s : List Char) : Bool :=
  match Suggestion.ofReply 1000 (some (String.ofList s)) with
  | .ok g => g.initialSupply == some (.formed "lots")
  | .error _ => false

theorem of_suggestsLots {s : String} (h : suggestsLots s.toList = true) :
    ∃ g, Suggestion.ofReply 1000 (some s) = .ok g ∧ g.initialSupply = some (.formed "lots") := by
  rw [suggestsLots, String.ofList_toList] at h
  split at h
  next g hg => exact ⟨g, hg, eq_of_beq h⟩
  next => cases h

/-- It is suggested all the same, and then reported. -/
theorem suggested_supply_lots :
    let input := Json.obj [("name", .str "initialSupply"), ("type", .str "uint256")]
    let abi := Json.arr [.obj [("type", .str "constructor"), ("inputs", .arr [input])]]
    ∃ g, Suggestion.ofReply 1000 (some lotsReply) = .ok g ∧ g.initialSupply = some (.formed "lots") ∧
      (∃ reason, problem? 4096 (g.toRequest []) 0 input =
        some ("Invalid value for initialSupply (uint256): " ++ reason)) ∧
      ∀ args, arguments 4096 abi (g.toRequest []) ≠ .ok args := by
  intro input abi
  have hlots : passes suggestsLots lotsReply = true := by decide +kernel
  obtain ⟨g, hg, hsupply⟩ := of_suggestsLots (of_passes hlots)
  have hins : inputs abi = .ok [input] := rfl
  have hnamed : ∀ v ∈ [input], IsNamed v := by
    intro v hv
    rw [List.mem_singleton.1 hv]
    exact isNamed_input _ _
  have hno : ¬∃ n, (RawText.formed "lots").IsNumeral n := by
    rintro ⟨n, hn⟩
    have hread : (readInteger "lots".toList).toOption = none := by decide
    rw [readInteger_eq_ok.2 hn] at hread
    cases hread
  have hparameters : ([] : List (RawText × Json)).lookup (.formed "initialSupply") = none := rfl
  have htaken : TakesSupply 4096 abi (g.toRequest []) 0 input "lots" :=
    (suggested_supply_taken hg hsupply hparameters hins hnamed).2.2.2 0 input rfl rfl rfl
  obtain ⟨hproblem, hargs⟩ := htaken.refused hno
  exact ⟨g, hg, hsupply, hproblem, hargs⟩

end Deployment

end Solwright
