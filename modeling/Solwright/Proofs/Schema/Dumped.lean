import Solwright.Proofs.Schema.Accepted
import Solwright.Proofs.Written.Ending

/-! Records that are written out and read again. Each check accepts the value that it made as it is shown, and as
that value, so data is put in order once: what is written out is read as the same record. -/

namespace Solwright

open Solwright.Text Solwright.Schema

section Shown

theorem nullable_text? (o : Option RawText) : nullable text (.rawText? o) = .accept o :=
  nullable_text_eq_accept.2 rfl

/-- A whole number is a text from then on. -/
theorem Suggestion.checkSupply_text? (o : Option RawText) : checkSupply (.rawText? o) = .accept o := by
  refine checkSupply_eq_accept.2 ?_
  cases o with
  | none => exact .null
  | some s => exact .text s

/-- A blank symbol is none from then on. -/
theorem Symbol.check_text? (o : Option Symbol) : check (.text? (o.map text)) = .accept o := by
  cases o with
  | none => rfl
  | some s => exact s.check_text

/-- A family that is not known is custom from then on. -/
theorem WrittenContract.checkFamily_name (f : Family) : checkFamily (.str f.name) = .accept f := by
  have hname : Family.ofJson? (.str f.name) = some f := Family.ofJson?_eq_some_iff.2
    ⟨_, rfl, Family.ofText?_eq_some_iff.1 f.ofText?_name⟩
  rw [checkFamily, hname]
  rfl

end Shown

namespace Json

mutual

/-- All numbers in a value are finite. -/
def isFinite : Json → Bool
  | .float x => x.isFinite
  | .arr vs => areFinite vs
  | .obj ms => haveFinite ms
  | _ => true

/-- All numbers in the items of an array are finite. -/
def areFinite : List Json → Bool
  | [] => true
  | v :: vs => v.isFinite && areFinite vs

/-- All numbers in the members of an object are finite. -/
def haveFinite : List (RawText × Json) → Bool
  | [] => true
  | (_, v) :: ms => v.isFinite && haveFinite ms

end

mutual

/-- The names of all members in a value are well formed. -/
def isNamed : Json → Bool
  | .arr vs => areNamed vs
  | .obj ms => haveNames ms
  | _ => true

/-- The names of all members in the items of an array are well formed. -/
def areNamed : List Json → Bool
  | [] => true
  | v :: vs => v.isNamed && areNamed vs

/-- The names of some members and of all members in them are well formed. -/
def haveNames : List (RawText × Json) → Bool
  | [] => true
  | (key, v) :: ms => key.isFormed && v.isNamed && haveNames ms

end

variable {v : Json} {vs : List Json} {ms : List (RawText × Json)}

theorem areNamed_iff : areNamed vs = true ↔ ∀ v ∈ vs, v.isNamed = true := by
  induction vs with
  | nil => simp [areNamed]
  | cons v vs ih => simp [areNamed, ih]

theorem haveNames_iff : haveNames ms = true ↔ ∀ m ∈ ms, m.1.isFormed = true ∧ m.2.isNamed = true := by
  induction ms with
  | nil => simp [haveNames]
  | cons m ms ih =>
    rw [haveNames, Bool.and_eq_true, Bool.and_eq_true, ih, List.forall_mem_cons]

mutual

/-- Finite numbers and well-formed names are written out as they are. -/
theorem written_eq_self {v : Json} (hfinite : v.isFinite = true) (hnamed : v.isNamed = true) : v.written = v := by
  cases v with
  | float x => exact if_pos hfinite
  | arr vs => exact congrArg Json.arr (writtenItems_eq_self hfinite hnamed)
  | obj ms =>
    have hnames : ms.all (·.1.isFormed) = true := List.all_eq_true.2 fun m hm => (haveNames_iff.1 hnamed m hm).1
    rw [written, writtenMembers_eq_self hfinite hnamed, renamed, if_pos hnames]
  | _ => rfl

theorem writtenItems_eq_self {vs : List Json} (hfinite : areFinite vs = true) (hnamed : areNamed vs = true) :
    writtenItems vs = vs := by
  cases vs with
  | nil => rfl
  | cons v vs =>
    rw [areFinite, Bool.and_eq_true] at hfinite
    rw [areNamed, Bool.and_eq_true] at hnamed
    rw [writtenItems, written_eq_self hfinite.1 hnamed.1, writtenItems_eq_self hfinite.2 hnamed.2]

theorem writtenMembers_eq_self {ms : List (RawText × Json)} (hfinite : haveFinite ms = true)
    (hnamed : haveNames ms = true) : writtenMembers ms = ms := by
  cases ms with
  | nil => rfl
  | cons m ms =>
    rw [haveFinite, Bool.and_eq_true] at hfinite
    rw [haveNames, Bool.and_eq_true, Bool.and_eq_true] at hnamed
    rw [writtenMembers, written_eq_self hfinite.1 hnamed.1.2, writtenMembers_eq_self hfinite.2 hnamed.2]

end

theorem haveNames_renamed (h : ∀ m ∈ ms, m.2.isNamed = true) : haveNames (renamed ms) = true := by
  rw [haveNames_iff]
  unfold renamed
  split
  next hall => exact fun m hm => ⟨List.all_eq_true.1 hall m hm, h m hm⟩
  next =>
    intro m hm
    obtain ⟨n, hn, rfl⟩ := List.mem_map.1 ((mem_putMembers hm).resolve_left List.not_mem_nil)
    exact ⟨by cases n.1 <;> rfl, h n hn⟩

mutual

/-- Whatever is written out has well-formed names. -/
theorem isNamed_written (v : Json) : v.written.isNamed = true := by
  cases v with
  | float x =>
    rw [written]
    split <;> rfl
  | arr vs => exact areNamed_iff.2 (isNamed_of_mem_writtenItems vs)
  | obj ms => exact haveNames_renamed (isNamed_of_mem_writtenMembers ms)
  | _ => rfl

theorem isNamed_of_mem_writtenItems (vs : List Json) : ∀ v ∈ writtenItems vs, v.isNamed = true := by
  cases vs with
  | nil => exact nofun
  | cons v vs => exact List.forall_mem_cons.2 ⟨isNamed_written v, isNamed_of_mem_writtenItems vs⟩

theorem isNamed_of_mem_writtenMembers (ms : List (RawText × Json)) : ∀ m ∈ writtenMembers ms, m.2.isNamed = true := by
  cases ms with
  | nil => exact nofun
  | cons m ms => exact List.forall_mem_cons.2 ⟨isNamed_written m.2, isNamed_of_mem_writtenMembers ms⟩

end

theorem isFinite_of_lookup {ms : List (RawText × Json)} (h : haveFinite ms = true) {key : RawText} {v : Json}
    (hv : ms.lookup key = some v) : v.isFinite = true := by
  induction ms with
  | nil => cases hv
  | cons m ms ih =>
    rw [haveFinite, Bool.and_eq_true] at h
    rw [List.lookup_cons] at hv
    split at hv
    · exact Option.some.inj hv ▸ h.1
    · exact ih h.2 hv

end Json

namespace Request

/-- The parameters of a request as they are written out. -/
def writtenParameters (r : Request) : List (RawText × Json) := Json.renamed (Json.writtenMembers r.parameters)

/-- What is written out is read again with the parameters as they were written. -/
theorem read_json (r : Request) : read r.json = .ok { r with parameters := r.writtenParameters } := by
  unfold read json ofMembers
  dsimp only
  rw [required_eq_accept (k := "family") rfl r.family.check_name,
    required_eq_accept (k := "contractName") rfl r.contractName.check_text,
    optional_eq_accept (k := "symbol") rfl (Symbol.check_text? r.symbol),
    optional_eq_accept (k := "features") rfl (list_texts r.features),
    optional_eq_accept (k := "parameters") (v := .obj r.writtenParameters) (a := r.writtenParameters) rfl rfl]
  rfl

/-- Finite parameters are written out as they are exactly if their names are well formed. -/
theorem writtenParameters_eq_iff {r : Request} (hfinite : Json.haveFinite r.parameters = true) :
    r.writtenParameters = r.parameters ↔ Json.haveNames r.parameters = true := by
  constructor
  · intro h
    rw [← h]
    exact Json.isNamed_written (.obj r.parameters)
  · intro hnamed
    have hself : (Json.obj r.parameters).written = .obj r.parameters := Json.written_eq_self hfinite hnamed
    exact Json.obj.inj hself

theorem haveFinite_of_read {v : Json} {r : Request} (hfinite : v.isFinite = true) (h : read v = .ok r) :
    Json.haveFinite r.parameters = true := by
  cases v with
  | obj ms =>
    have hms := named_eq_ok.1 h
    simp only [ofMembers, seq_eq_accept, map_eq_accept] at hms
    obtain ⟨_, _, ⟨_, _, ⟨_, _, ⟨_, _, ⟨_, -, rfl⟩, -, rfl⟩, -, rfl⟩, -, rfl⟩, hparameters, rfl⟩ := hms
    obtain rfl | ⟨key, w, hw, hobject⟩ := exists_of_optional hparameters
    · rfl
    have hfinite := Json.isFinite_of_lookup hfinite hw
    cases w with
    | obj qs => exact accept_eq_accept.1 hobject ▸ hfinite
    | _ => cases hobject
  | _ => cases h

end Request

namespace Suggestion

/-- A suggestion that gives a reason is read as it was written. -/
theorem read_json (g : Suggestion) (h : g.reasoning ≠ "") : read g.json = .ok g := by
  unfold read json
  dsimp only
  unfold ofMembers
  rw [required_eq_accept (k := "family") rfl g.family.check_name,
    required_eq_accept (k := "contractName") rfl g.contractName.check_text,
    optional_eq_accept (k := "symbol") rfl (nullable_text? g.symbol),
    optional_eq_accept (k := "initialSupply") rfl (checkSupply_text? g.initialSupply),
    required_eq_accept (k := "features") rfl (list_texts g.features),
    required_eq_accept (k := "reasoning") rfl (someText_eq_accept.2 ⟨rfl, h⟩)]
  rfl

theorem reasoning_ne_empty_of_read {v : Json} {g : Suggestion} (h : read v = .ok g) : g.reasoning ≠ "" := by
  cases v with
  | obj ms =>
    have hms := named_eq_ok.1 h
    simp only [ofMembers, seq_eq_accept, map_eq_accept] at hms
    obtain ⟨_, _, ⟨_, _, ⟨_, _, ⟨_, _, ⟨_, _, ⟨_, -, rfl⟩, -, rfl⟩, -, rfl⟩, -, rfl⟩, -, rfl⟩, hreasoning, rfl⟩ := hms
    obtain ⟨_, _, -, hreasoning⟩ := exists_of_required hreasoning
    exact (someText_eq_accept.1 hreasoning).2
  | _ => cases h

end Suggestion

namespace WrittenContract

/-- A contract with code is read as it was written. -/
theorem read_members (c : WrittenContract) (h : c.code ≠ "") : read (.obj c.members) = .ok c := by
  unfold read members
  dsimp only
  unfold ofMembers
  rw [required_eq_accept (k := "contractCode") rfl (someText_eq_accept.2 ⟨rfl, h⟩),
    optional_eq_accept (k := "contractName") rfl (nullable_text? c.name),
    optional_eq_accept (k := "symbol") rfl (nullable_text? c.symbol),
    optional_eq_accept (k := "contractType") rfl (checkFamily_name c.family),
    optional_eq_accept (k := "features") rfl (list_texts c.features),
    optional_eq_accept (k := "explanation") rfl (nullable_text? c.explanation)]
  rfl

theorem code_ne_empty_of_read {v : Json} {c : WrittenContract} (h : read v = .ok c) : c.code ≠ "" := by
  cases v with
  | obj ms => exact code_ne_empty_of_ofMembers (named_eq_ok.1 h)
  | _ => cases h

end WrittenContract

/-- A record is written out, what is written out is read as the same record, and that is written out alike. -/
def IsSettled {α : Type} (read : Json → Except Rejection α) (dump : α → Except Fault Json) (a : α) : Prop :=
  ∃ d, dump a = .ok d ∧ ∃ b, read d = .ok b ∧ b = a ∧ dump b = .ok d

namespace Request

/-- A request is written out exactly if its parameters are not too deep. -/
theorem dump_cases (r : Request) :
    (∀ p ∈ r.parameters, p.2.levels ≤ levelLimit) ∧ r.dump = .ok r.json ∨
      (∃ p ∈ r.parameters, levelLimit < p.2.levels) ∧
        r.dump = .error (.badValue "Maximum serialization depth exceeded") := by
  by_cases h : ∀ p ∈ r.parameters, p.2.levels ≤ levelLimit
  · exact .inl ⟨h, if_pos (by simpa using h)⟩
  · exact .inr ⟨by simpa using h, if_neg (by simpa using h)⟩

/-- Lists in one another. -/
def nested : Nat → Json
  | 0 => .arr []
  | n + 1 => .arr [nested n]

theorem levels_nested (n : Nat) : (nested n).levels = n + 1 := by
  induction n with
  | zero => rfl
  | succ n ih => simp [nested, Json.levels, Json.levelsOfItems, ih]

theorem isFinite_nested (n : Nat) : (nested n).isFinite = true := by
  induction n with
  | zero => rfl
  | succ n ih => simp [nested, Json.isFinite, Json.areFinite, ih]

/-- A request that is not nested too deeply is settled exactly if it keeps its parameters where it is written out. -/
theorem isSettled_iff {r : Request} (hlevels : ∀ p ∈ r.parameters, p.2.levels ≤ levelLimit) :
    IsSettled read dump r ↔ r.writtenParameters = r.parameters := by
  have hdump : r.dump = .ok r.json := if_pos (by simpa using hlevels)
  constructor
  · rintro ⟨d, hd, b, hb, rfl, -⟩
    rw [hdump] at hd
    cases hd
    rw [read_json] at hb
    exact congrArg parameters (Except.ok.inj hb)
  · intro h
    refine ⟨r.json, hdump, r, ?_, rfl, hdump⟩
    rw [read_json, h]

end Request

/-- Data with finite numbers that is accepted as a suggestion or a written contract is put in order once and for
all, and so is a request exactly if the names in its parameters are well formed, unless a parameter is nested too
deeply; such a request is never written out. -/
theorem records_settled (v : Json) (hfinite : v.isFinite = true) :
    (∀ r, Request.read v = .ok r →
      (∀ p ∈ r.parameters, p.2.levels ≤ Request.levelLimit) ∧
          (IsSettled Request.read Request.dump r ↔ Json.haveNames r.parameters = true) ∨
        (∃ p ∈ r.parameters, Request.levelLimit < p.2.levels) ∧
          r.dump = .error (.badValue "Maximum serialization depth exceeded")) ∧
    (∀ g, Suggestion.read v = .ok g → IsSettled Suggestion.read (fun g => .ok g.json) g) ∧
    ∀ c, WrittenContract.read v = .ok c → IsSettled WrittenContract.read (fun c => .ok (.obj c.members)) c := by
  refine ⟨fun r h => ?_, fun g h => ?_, fun c h => ?_⟩
  · refine r.dump_cases.imp_left fun ⟨hlevels, _⟩ => ⟨hlevels, ?_⟩
    rw [Request.isSettled_iff hlevels, Request.writtenParameters_eq_iff (Request.haveFinite_of_read hfinite h)]
  · exact ⟨g.json, rfl, g, g.read_json (Suggestion.reasoning_ne_empty_of_read h), rfl, rfl⟩
  · exact ⟨.obj c.members, rfl, c, c.read_members (WrittenContract.code_ne_empty_of_read h), rfl, rfl⟩

theorem records_settled_untidy :
    let request := Json.obj [("family", .str " ERC20 "), ("contract_name", .str "W"), ("symbol", .str "  "),
      ("parameters", .obj [("rate", .float (.zero true))])]
    let suggestion := Json.obj [("family", .str "nft"), ("contractName", .str "W"), ("initial_supply", .int (-5)),
      ("features", .arr []), ("reasoning", .str "a token")]
    let written := Json.obj [("contractCode", .str "contract A"), ("contractType", .str "dex")]
    (∃ r, Request.read request = .ok r ∧ r.family = .fungible ∧ r.symbol = none ∧
      IsSettled Request.read Request.dump r) ∧
    (∃ g, Suggestion.read suggestion = .ok g ∧ g.family = .nonFungible ∧ g.initialSupply = some (.formed "-5") ∧
      IsSettled Suggestion.read (fun g => .ok g.json) g) ∧
    ∃ c, WrittenContract.read written = .ok c ∧ c.family = .custom ∧
      IsSettled WrittenContract.read (fun c => .ok (.obj c.members)) c := by
  intro request suggestion written
  obtain ⟨r, hr, hfamily, hsymbol, hparameters⟩ : ∃ r, Request.read request = .ok r ∧ r.family = .fungible ∧
      r.symbol = none ∧ r.parameters = [(.formed "rate", .float (.zero true))] := ⟨_, rfl, rfl, rfl, rfl⟩
  obtain ⟨g, hg, hunique, hsupply⟩ : ∃ g, Suggestion.read suggestion = .ok g ∧ g.family = .nonFungible ∧
      g.initialSupply = some (.formed "-5") := ⟨_, rfl, rfl, by decide⟩
  obtain ⟨c, hc, hcustom⟩ : ∃ c, WrittenContract.read written = .ok c ∧ c.family = .custom := ⟨_, rfl, rfl⟩
  refine ⟨⟨r, hr, hfamily, hsymbol, ?_⟩, ⟨g, hg, hunique, hsupply, (records_settled suggestion rfl).2.1 g hg⟩,
    ⟨c, hc, hcustom, (records_settled written rfl).2.2 c hc⟩⟩
  obtain ⟨-, hsettled⟩ | ⟨⟨p, hp, hdeep⟩, -⟩ := (records_settled request rfl).1 r hr
  · exact hsettled.2 (by rw [hparameters]; rfl)
  · obtain rfl : p = (.formed "rate", .float (.zero true)) := List.mem_singleton.1 (hparameters ▸ hp)
    exact absurd hdeep (by decide)

/-- There is a request that is accepted and cannot be written out, and one that is written out as another. -/
theorem Request.exists_not_settled :
    let request := fun key v => Json.obj
      [("family", .str "erc20"), ("contractName", .str "W"), ("parameters", .obj [(key, v)])]
    let deep := request "d" (nested 255)
    let half := request (.illFormed [0xD83D]) .null
    (deep.isFinite = true ∧ ∃ r, read deep = .ok r ∧ ¬∃ d, r.dump = .ok d) ∧
    half.isFinite = true ∧ ∃ r, read half = .ok r ∧ ¬IsSettled read dump r := by
  intro request deep half
  obtain ⟨r, hr, hparameters⟩ : ∃ r, read deep = .ok r ∧ r.parameters = [(.formed "d", nested 255)] := ⟨_, rfl, rfl⟩
  obtain ⟨r', hr', hparameters'⟩ : ∃ r, read half = .ok r ∧ r.parameters = [(.illFormed [0xD83D], .null)] :=
    ⟨_, rfl, rfl⟩
  have hlevels : ∀ p ∈ r'.parameters, p.2.levels ≤ levelLimit := by
    rw [hparameters']
    decide
  refine ⟨⟨by simp [deep, request, Json.isFinite, Json.haveFinite, isFinite_nested], r, hr, ?_⟩, rfl, r', hr', ?_⟩
  · obtain ⟨hlevels, -⟩ | ⟨-, hdump⟩ := r.dump_cases
    · have hd := hlevels (.formed "d", nested 255) (by simp [hparameters])
      rw [levels_nested] at hd
      exact absurd hd (by decide)
    · rw [hdump]
      exact nofun
  · rw [isSettled_iff hlevels, writtenParameters_eq_iff (by rw [hparameters']; rfl), hparameters']
    decide

end Solwright
