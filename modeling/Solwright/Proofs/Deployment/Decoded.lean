import Solwright.Proofs.Deployment.Decoding
import Solwright.Proofs.Text.Hex

/-! The data of a deployment. It holds the arguments of the constructor behind the creation code, whole words from
which they can be read back, so it is the same for two requests exactly if they make the same arguments. -/

namespace Solwright.Deployment

open AbiType Text

/-- The inputs of a constructor are of kinds. -/
def HasKinds (ins : List Json) (ks : List Kind) : Prop :=
  List.Forall₂ (fun v (k : Kind) => v.get? "type" = some (.str k.spelling)) ins ks

variable {room : Nat} {k : Kind} {a : Argument} {given : Json}

/-- Whether a spelled type is known for a basic one. -/
def isBasic (base : String) (spelling : String) : Bool :=
  match AbiType.read spelling with
  | .ok (.basic b size) => b == base && size == .unsized
  | _ => false

theorem read_of_isBasic {base spelling : String} (h : isBasic base spelling = true) :
    AbiType.read spelling = .ok (.basic base .unsized) := by
  unfold isBasic at h
  split at h
  next hread =>
    obtain ⟨hbase, hsize⟩ := Bool.and_eq_true_iff.1 h
    rw [hread, eq_of_beq hbase, eq_of_beq hsize]
  next => cases h

theorem Kind.read_spelling (k : Kind) : AbiType.read k.spelling = .ok k.type := by
  cases k with
  | integer signed bits width => exact read_integerType width
  | address => exact read_of_isBasic (by decide)
  | switch => exact read_of_isBasic (by decide)
  | text => exact read_of_isBasic (by decide)
  | bytes => exact read_of_isBasic (by decide)

/-- The value that an input of a kind is given, brought to its type. -/
theorem argument_spelling (k : Kind) (given : Json) : argument room k.spelling given = match k with
    | .integer _ _ _ => integerArgument given
    | .address => addressArgument given
    | .switch => .ok (switchArgument given)
    | .text => .ok (textArgument given)
    | .bytes => bytesArgument room given := by
  have hother : ∀ spelling ∈ ["address", "bool", "string", "bytes"],
      (spelling.startsWith "uint" || spelling.startsWith "int") = false := by decide +kernel
  cases k with
  | integer signed bits width => exact if_pos (Bool.and_eq_true_iff.1 (isKnown_integerType signed width)).1
  | address =>
    rw [argument, Kind.spelling, hother "address" (by simp)]
    rfl
  | switch =>
    rw [argument, Kind.spelling, hother "bool" (by simp)]
    rfl
  | text =>
    rw [argument, Kind.spelling, hother "string" (by simp)]
    rfl
  | bytes =>
    have hbytes : "bytes".startsWith "bytes" = true := by decide +kernel
    rw [argument, Kind.spelling, hother "bytes" (by simp), hbytes]
    rfl

/-- What is brought to the type of a kind and passes its check is of the kind, if it is no text without bytes. -/
theorem fits_of_argument (h : argument room k.spelling given = .ok a) (hcheck : k.type.check a = .ok ())
    (hwell : a.illFormed? = none) : k.Fits a := by
  rw [argument_spelling] at h
  cases k with
  | integer signed bits width =>
    obtain ⟨q, -, rfl⟩ := integerArgument_eq_ok.1 h
    exact .integer ((check_asType _).1 hcheck)
  | address =>
    dsimp only at h
    unfold addressArgument at h
    split at h
    next s =>
      split at h
      next hs =>
        cases h
        have hchecked : Address.isAddress (Address.checked s.toList) = true := by
          have hif : (if Address.isAddress (String.ofList (Address.checked s.toList)).toList = true then
              Except.ok () else .error (Fault.encoding .wrongKind)) = .ok () := hcheck
          rw [String.toList_ofList] at hif
          by_contra hno
          rw [if_neg hno] at hif
          cases hif
        refine .address ?_ ?_ <;> rw [String.toList_ofList]
        · exact hchecked
        · exact Address.checked_checked hs hchecked
      next => cases h
    next => cases h
  | switch =>
    cases Except.ok.inj h
    unfold switchArgument
    split <;> exact .switch _
  | text =>
    cases Except.ok.inj h
    unfold textArgument at hwell ⊢
    split
    next codes => cases hwell
    next => exact .text _
  | bytes =>
    obtain ⟨bs, -, rfl⟩ := map_eq_ok.1 h
    exact .bytes bs

variable {ins : List Json} {ks : List Kind} {args : List Argument} {r : Request}

theorem type_of_ofJson {place : Nat} {v : Json} {i : Input} (h : Input.ofJson place v = .ok i) :
    i.typeOrEmpty = inputType v := by
  obtain ⟨name, -, h⟩ := bind_eq_ok.1 h
  cases h
  rfl

/-- Where no input has a problem, each adds one argument. -/
theorem Tally.arguments_of_addAll {held : List (RawText × Json)} {t t' : Tally} (h : t.addAll room held ins = .ok t')
    (hquiet : t'.problems = []) : t.problems = [] ∧ ∃ args, t'.arguments = t.arguments ++ args ∧
      List.Forall₂ (fun v a => ∃ given, argumentFor room (inputType v) given = .ok a) ins args := by
  induction ins generalizing t with
  | nil =>
    cases h
    exact ⟨hquiet, [], by simp, .nil⟩
  | cons v ins ih =>
    obtain ⟨i, hi, h⟩ := bind_eq_ok.1 h
    obtain ⟨s, hs, h⟩ := bind_eq_ok.1 h
    obtain ⟨hsquiet, args, hargs, hall⟩ := ih h
    obtain ⟨found, -, hs⟩ := bind_eq_ok.1 hs
    have hnoisy : ∀ problem, t.withProblem problem ≠ s := by
      rintro problem rfl
      simp [withProblem] at hsquiet
    cases found with
    | none => exact absurd (Except.ok.inj hs) (hnoisy _)
    | some given =>
      rw [type_of_ofJson hi] at hs
      dsimp only at hs
      split at hs
      next a ha =>
        cases hs
        exact ⟨hsquiet, a :: args, by simp [hargs], .cons ⟨given, ha⟩ hall⟩
      next => exact absurd (Except.ok.inj hs) (hnoisy _)
      next => cases hs

theorem arguments_each (h : argumentsFor room ins r = .ok args) :
    List.Forall₂ (fun v a => ∃ given, argumentFor room (inputType v) given = .ok a) ins args := by
  obtain ⟨t, ht, h⟩ := bind_eq_ok.1 h
  split at h
  next hquiet =>
    obtain ⟨-, args', hargs, hall⟩ := Tally.arguments_of_addAll ht (List.isEmpty_iff.1 hquiet)
    rw [List.nil_append] at hargs
    rwa [← Except.ok.inj h, hargs]
  next => cases h

theorem types_of_kinds (h : HasKinds ins ks) : types ins = .ok (ks.map Kind.spelling) := by
  induction h with
  | nil => rfl
  | cons hv _ ih =>
    rw [types, hv, ih]
    rfl

theorem readAll_spelling (ks : List Kind) : AbiType.readAll (ks.map Kind.spelling) = .ok (ks.map Kind.type) := by
  induction ks with
  | nil => rfl
  | cons k ks ih =>
    rw [List.map_cons, AbiType.readAll, k.read_spelling, ih]
    rfl

/-- What is encoded for inputs of kinds is assembled of arguments that have been checked. -/
theorem encoded_eq_ok {bytes : List UInt8} (hkinds : HasKinds ins ks) (h : encoded ins args = .ok bytes) :
    checkAll (ks.map Kind.type) args = .ok () ∧ Argument.illFormedAmong? args = none ∧
      (AbiType.tuple (ks.map Kind.type)).fits (.list args) = true ∧
      bytes = assemble (writeAll (ks.map Kind.type) args) := by
  rw [encoded, types_of_kinds hkinds] at h
  obtain ⟨ts, hread, -, hencoded⟩ := AbiType.encode_eq_ok.1 h
  rw [readAll_spelling, Except.ok.injEq] at hread
  subst hread
  exact hencoded

theorem fits_of_arguments (hkinds : HasKinds ins ks)
    (hargs : List.Forall₂ (fun v a => ∃ given, argumentFor room (inputType v) given = .ok a) ins args)
    (hcheck : checkAll (ks.map Kind.type) args = .ok ()) (hwell : Argument.illFormedAmong? args = none) :
    List.Forall₂ Kind.Fits ks args := by
  induction hkinds generalizing args with
  | nil =>
    cases hargs
    exact .nil
  | cons hv _ ih =>
    cases hargs with
    | cons ha hrest =>
      obtain ⟨given, ha⟩ := ha
      obtain ⟨_, hfirst, hothers⟩ := bind_eq_ok.1 hcheck
      obtain ⟨hwell, hwells⟩ := Option.or_eq_none_iff.1 hwell
      rw [inputType, hv] at ha
      exact .cons (fits_of_argument ha hfirst hwell) (ih hrest hothers hwells)

/-- What the data of a deployment is made of. -/
theorem payload_eq_ok {a : Artifact} {data : String} (hins : inputs a.abi = .ok ins) (h : payload room a r = .ok data) :
    ∃ args bytes, argumentsFor room ins r = .ok args ∧ encoded ins args = .ok bytes ∧
      data = initCode (a.bytecode.getD "") bytes := by
  unfold payload at h
  dsimp only at h
  split at h
  · cases h
  split at h
  · cases h
  obtain ⟨ins', hins', h⟩ := bind_eq_ok.1 h
  obtain ⟨args, hargs, h⟩ := bind_eq_ok.1 h
  obtain ⟨bytes, hbytes, hdata⟩ := map_eq_ok.1 h
  rw [hins, Except.ok.injEq] at hins'
  subst hins'
  exact ⟨args, bytes, hargs, hbytes, hdata.symm⟩

theorem initCode_toList (code : String) (bytes : List UInt8) :
    (initCode code bytes).toList = withHexMark (dropHexMark code.toList) ++ hexText bytes := by
  rw [initCode, String.toList_ofList, withHexMark_append_hexText]

/-- The data of a deployment is the creation code under one mark and whole words behind it, from which the
arguments for inputs of the kinds can be read back. So two requests have the same data exactly if they have the
same arguments. -/
theorem payload_decodes {a : Artifact} (hins : inputs a.abi = .ok ins) (hkinds : HasKinds ins ks) {data : String}
    (hdata : payload room a r = .ok data) :
    let code := dropHexMark (a.bytecode.getD "").toList
    (∃ args bytes, arguments room a.abi r = .ok args ∧ data.toList = withHexMark code ++ hexText bytes ∧
      (hasHexMark code = false → data.toList = '0' :: 'x' :: (code ++ hexText bytes)) ∧
      32 ∣ bytes.length ∧ args.length = ks.length ∧
      Kind.decode? ks bytes = some (ks.zipWith Kind.compared args)) ∧
    ∀ r' data', payload room a r' = .ok data' → (data' = data ↔ arguments room a.abi r' = arguments room a.abi r) := by
  intro code
  have hall : ∀ {r data}, payload room a r = .ok data → ∃ args bytes, argumentsFor room ins r = .ok args ∧
      encoded ins args = .ok bytes ∧ data = initCode (a.bytecode.getD "") bytes ∧ List.Forall₂ Kind.Fits ks args ∧
      32 ∣ bytes.length ∧ Kind.decode? ks bytes = some (ks.zipWith Kind.compared args) := by
    intro r data hdata
    obtain ⟨args, bytes, hargs, hencoded, hdata⟩ := payload_eq_ok hins hdata
    obtain ⟨hcheck, hwell, hfit, hbytes⟩ := encoded_eq_ok hkinds hencoded
    have hfits := fits_of_arguments hkinds (arguments_each hargs) hcheck hwell
    refine ⟨args, bytes, hargs, hencoded, hdata, hfits, ?_, ?_⟩
    · rw [hbytes]
      exact dvd_length_assemble (Kind.parts_words hfits).2
    · rw [hbytes]
      exact Kind.decode?_assemble hfits hfit
  obtain ⟨args, bytes, hargs, hencoded, rfl, hfits, hwords, hdecode⟩ := hall hdata
  have hlist := initCode_toList (a.bytecode.getD "") bytes
  refine ⟨⟨args, bytes, (arguments_eq hins r).trans hargs, hlist, fun hcode => ?_, hwords, hfits.length_eq.symm,
    hdecode⟩, fun r' data' hdata' => ?_⟩
  · rw [hlist, withHexMark, hcode]
    rfl
  obtain ⟨args', bytes', hargs', hencoded', rfl, hfits', -, hdecode'⟩ := hall hdata'
  rw [arguments_eq hins, arguments_eq hins, hargs, hargs', Except.ok.injEq]
  constructor
  · intro h
    have hdigits := congrArg String.toList h
    rw [initCode_toList, initCode_toList] at hdigits
    have hbytes : bytes' = bytes := hexText_inj (List.append_cancel_left hdigits)
    rw [hbytes, hdecode, Option.some_inj] at hdecode'
    exact Kind.eq_of_zipWith_compared hfits' hfits hdecode'.symm
  · rintro rfl
    rw [Except.ok.inj (hencoded'.symm.trans hencoded)]

/-- The inputs of a constructor, one of each kind but for addresses. -/
def offerInputs : List Json :=
  [.obj [("name", .str "cap"), ("type", .str "uint256")], .obj [("name", .str "note"), ("type", .str "string")],
    .obj [("name", .str "debt"), ("type", .str "int8")], .obj [("name", .str "seed"), ("type", .str "bytes")],
    .obj [("name", .str "open"), ("type", .str "bool")]]

def offerKinds : List Kind :=
  [.integer false 256 (by decide), .text, .integer true 8 (by decide), .bytes, .switch]

def offer : Artifact where
  contractName := "Offer"
  sourceName := "Offer.sol"
  bytecode := some "0x6080"
  deployedBytecode := none
  abi := .arr [.obj [("type", .str "constructor"), ("inputs", .arr offerInputs)]]
  gasEstimate := 0
  depositCost := none
  executionCost := none
  methodIdentifiers := .null
  gasEstimates := .null
  linkReferences := .null
  deployedLinkReferences := .null
  developerDocs := .null
  userDocs := .null
  warnings := []

def offered (parameters : List (RawText × Json)) : Request :=
  ⟨.custom, ⟨"Offer", by decide⟩, none, [], parameters⟩

/-- Neither the order of the parameters nor one that no input asks for makes a difference to the data. -/
theorem payload_decodes_offer :
    let r := offered [("cap", .str "7"), ("note", .str "a b"), ("debt", .int (-1)), ("seed", .str "0x0102"),
      ("open", .str " Yes ")]
    let r' := offered [("open", .str " Yes "), ("cap", .str "7"), ("seed", .str "0x0102"), ("fee", .null),
      ("debt", .int (-1)), ("note", .str "a b"), ("owner", .int 0)]
    ∃ data, payload 4096 offer r = .ok data ∧ payload 4096 offer r' = .ok data ∧
      ∃ args bytes, arguments 4096 offer.abi r = .ok args ∧ args.length = 5 ∧ 32 ∣ bytes.length ∧
        Kind.decode? offerKinds bytes = some (offerKinds.zipWith Kind.compared args) := by
  intro r r'
  have hins : inputs offer.abi = .ok offerInputs := rfl
  have hkinds : HasKinds offerInputs offerKinds := .cons rfl (.cons rfl (.cons rfl (.cons rfl (.cons rfl .nil))))
  have hsome : ∀ {x : Except Fault String}, x.toOption.isSome = true → ∃ data, x = .ok data := by
    rintro (f | data) h
    · cases h
    · exact ⟨data, rfl⟩
  obtain ⟨data, hdata⟩ := hsome (x := payload 4096 offer r) (by decide +kernel)
  obtain ⟨data', hdata'⟩ := hsome (x := payload 4096 offer r') (by decide +kernel)
  have hnamed : ∀ v ∈ offerInputs, IsNamed v := by
    intro v hv
    simp only [offerInputs, List.mem_cons, List.not_mem_nil, or_false] at hv
    rcases hv with rfl | rfl | rfl | rfl | rfl <;> exact isNamed_input _ _
  have hsame : arguments 4096 offer.abi r' = arguments 4096 offer.abi r := by
    rw [arguments_eq hins, arguments_eq hins, argumentsFor, argumentsFor, Tally.addAll_congr hnamed {}]
    rintro (_ | _ | _ | _ | _ | place) v ⟨⟩ <;> rfl
  obtain ⟨⟨args, bytes, hargs, -, -, hwords, hcount, hdecode⟩, hiff⟩ := payload_decodes hins hkinds hdata
  have heq : data' = data := (hiff r' data' hdata').2 hsame
  exact ⟨data, hdata, heq ▸ hdata', args, bytes, hargs, hcount, hwords, hdecode⟩

end Solwright.Deployment
