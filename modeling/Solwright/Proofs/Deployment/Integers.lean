import Solwright.Deployment.Payload
import Solwright.Proofs.Deployment.Chosen
import Solwright.Proofs.Deployment.Described
import Solwright.Proofs.Number.Value

/-! Arguments whose types are of whole numbers. What stands for a number is brought to such a type by cutting off
its fraction, whatever the bounds of the type are; those are only met when the arguments are encoded. -/

namespace Solwright

open Json Number

/-- The number that a value stands for: a whole number, a finite double, or a text that is a numeral. -/
inductive Json.Denotes : Json → ℚ → Prop
  | int (n : Int) : Denotes (.int n) n
  | float {x : Binary64} {q : ℚ} : x.value? = some q → Denotes (.float x) q
  | numeral {s : String} {n : Int} : IsNumeral s.toList n → Denotes (.str s) n

namespace Deployment

variable {room : Nat} {r : Request} {ins : List Json} {place : Nat} {v : Json} {signed : Bool} {bits : Nat}

theorem integerArgument_eq_ok {given : Json} {a : Argument} :
    integerArgument given = .ok a ↔ ∃ q, given.Denotes q ∧ a = .int (cut q) := by
  have hnone : ∀ {w : Json} {e : Refusal}, (∀ q, ¬w.Denotes q) →
      ((.error e : Except Refusal Argument) = .ok a ↔ ∃ q, w.Denotes q ∧ a = .int (cut q)) :=
    fun h => ⟨nofun, fun ⟨q, hq, _⟩ => absurd hq (h q)⟩
  cases given with
  | int n =>
    refine ⟨fun h => ⟨n, .int n, ?_⟩, ?_⟩
    · rw [cut_intCast]
      exact (Except.ok.inj h).symm
    · rintro ⟨q, ⟨⟩, rfl⟩
      rw [cut_intCast]
      rfl
  | float x =>
    cases x with
    | finite negative m e canonical =>
      refine ⟨fun h => ⟨_, .float rfl, ?_⟩, ?_⟩
      · rw [← truncate_eq_cut]
        exact (Except.ok.inj h).symm
      · rintro ⟨q, hq, rfl⟩
        cases hq with
        | float hvalue =>
          cases hvalue
          rw [← truncate_eq_cut]
          rfl
    | infinite negative =>
      refine hnone fun q hq => ?_
      cases hq with
      | float hvalue => cases hvalue
    | nan =>
      refine hnone fun q hq => ?_
      cases hq with
      | float hvalue => cases hvalue
  | str s =>
    unfold integerArgument
    dsimp only
    cases hread : readInteger s.toList with
    | ok n =>
      refine ⟨fun h => ⟨n, .numeral (readInteger_eq_ok.1 hread), ?_⟩, ?_⟩
      · rw [cut_intCast]
        exact (Except.ok.inj h).symm
      · rintro ⟨q, hq, rfl⟩
        cases hq with
        | numeral hm =>
          rw [readInteger_eq_ok.2 hm] at hread
          cases hread
          rw [cut_intCast]
    | error f =>
      refine hnone fun q hq => ?_
      cases hq with
      | numeral hm =>
        rw [readInteger_eq_ok.2 hm] at hread
        cases hread
  | null | bool _ | illFormed _ | arr _ | obj _ => exact hnone (by rintro q ⟨⟩)

theorem integerArgument_eq_fatal {given : Json} : (∃ f, integerArgument given = .error (.fatal f)) ↔
    ∃ negative, given = .float (.infinite negative) := by
  constructor
  · rintro ⟨f, hf⟩
    unfold integerArgument at hf
    split at hf
    case h_4 negative => exact ⟨negative, rfl⟩
    case h_6 s => split at hf <;> cases hf
    all_goals cases hf
  · rintro ⟨negative, rfl⟩
    exact ⟨_, rfl⟩

/-- The type of whole numbers of some bits. -/
def integerType (signed : Bool) (bits : Nat) : String :=
  (if signed then "int" else "uint") ++ toString bits

/-- The bits that a type of whole numbers may have. -/
def IsWidth (bits : Nat) : Prop := 8 ∣ bits ∧ 8 ≤ bits ∧ bits ≤ 256

instance (bits : Nat) : Decidable (IsWidth bits) := inferInstanceAs (Decidable (_ ∧ _))

/-- A number within the bounds of a type of whole numbers. -/
def InRange (signed : Bool) (bits : Nat) (n : Int) : Prop :=
  if signed then -2 ^ (bits - 1) ≤ n ∧ n < 2 ^ (bits - 1) else 0 ≤ n ∧ n < 2 ^ bits

/-- An input whose type is of whole numbers. -/
structure IsInteger (v : Json) (signed : Bool) (bits : Nat) : Prop where
  width : IsWidth bits
  type : v.get? "type" = some (.str (integerType signed bits))

/-- The type of whole numbers, as it is read. -/
def asType (signed : Bool) (bits : Nat) : AbiType :=
  .basic (if signed then "int" else "uint") (.bits bits)

/-- Whether a spelled type is known for one of whole numbers of some bits, by values and by encoding. -/
def isKnown (signed : Bool) (bits : Nat) (spelling : String) : Bool :=
  (spelling.startsWith "uint" || spelling.startsWith "int") && match AbiType.read spelling with
    | .ok (.basic base size) => base == (if signed then "int" else "uint") && size == .bits bits
    | _ => false

theorem isKnown_integerType (signed : Bool) (h : IsWidth bits) :
    isKnown signed bits (integerType signed bits) = true := by
  have hall : ∀ signed : Bool, ∀ k < 32,
      isKnown signed (8 * (k + 1)) (integerType signed (8 * (k + 1))) = true := by decide +kernel
  obtain ⟨⟨k, rfl⟩, hlow, hhigh⟩ := h
  obtain ⟨j, rfl⟩ : ∃ j, k = j + 1 := ⟨k - 1, by omega⟩
  exact hall signed j (by omega)

theorem argumentFor_integer (h : IsInteger v signed bits) (given : Json) :
    argumentFor room (inputType v) given = integerArgument given := by
  have hknown := (Bool.and_eq_true_iff.1 (isKnown_integerType signed h.width)).1
  rw [inputType, h.type]
  exact if_pos hknown

theorem read_integerType (h : IsWidth bits) :
    AbiType.read (integerType signed bits) = .ok (asType signed bits) := by
  have hknown := (Bool.and_eq_true_iff.1 (isKnown_integerType signed h)).2
  split at hknown
  · rename_i base size hread
    obtain ⟨hbase, hsize⟩ := Bool.and_eq_true_iff.1 hknown
    rw [hread, asType, eq_of_beq hbase, eq_of_beq hsize]
  · cases hknown

theorem check_asType (n : Int) : (asType signed bits).check (.int n) = .ok () ↔ InRange signed bits n := by
  have hwithin : ∀ {lo hi : Int}, AbiType.within lo hi n = .ok () ↔ lo ≤ n ∧ n ≤ hi := by
    intro lo hi
    rw [AbiType.within]
    split_ifs with h
    · simpa using h
    · simpa using h
  have hcheck : (asType signed bits).check (.int n) =
      AbiType.within (AbiType.bounds signed bits).1 (AbiType.bounds signed bits).2 n := by
    cases signed <;> rfl
  rw [hcheck, hwithin, InRange, AbiType.bounds]
  cases signed with
  | false =>
    have hpow : ((Nat.pow 2 bits : Nat) : Int) = 2 ^ bits := by simp
    simp only [Bool.false_eq_true, if_false, hpow]
    omega
  | true =>
    have hpow : ((Nat.pow 2 (bits - 1) : Nat) : Int) = 2 ^ (bits - 1) := by simp
    simp only [if_true, hpow]
    omega

theorem isDynamic_asType : (asType signed bits).isDynamic = false := by
  cases signed <;> simp [asType, AbiType.isDynamic]

theorem fits_asType (n : Int) : (asType signed bits).fits (.int n) = true := rfl

/-- An input of whole numbers ends everything exactly where an infinity is chosen for it. -/
theorem isSettled_integer (h : IsInteger v signed bits) : IsSettled room r place v ↔
    ∀ negative, r.chosen? (inputName place v) ≠ some (.float (.infinite negative)) := by
  unfold IsSettled
  simp only [argumentFor_integer h]
  refine ⟨fun hsettled negative hchosen => ?_, fun hfinite given f hchosen hfatal => ?_⟩
  · exact hsettled _ .tooLarge hchosen rfl
  · obtain ⟨negative, rfl⟩ := integerArgument_eq_fatal.1 ⟨f, hfatal⟩
    exact hfinite negative hchosen

theorem argument?_integer (h : IsInteger v signed bits) {a : Argument} : argument? room r place v = some a ↔
    ∃ given q, r.chosen? (inputName place v) = some given ∧ given.Denotes q ∧ a = .int (cut q) := by
  have hoption : ∀ given : Json, (integerArgument given).toOption = some a ↔
      ∃ q, given.Denotes q ∧ a = .int (cut q) := by
    intro given
    rw [← integerArgument_eq_ok]
    cases integerArgument given <;> simp [Except.toOption]
  unfold argument?
  simp only [Option.bind_eq_some_iff, argumentFor_integer h, hoption]
  constructor
  · rintro ⟨given, hchosen, q, hq⟩
    exact ⟨given, q, hchosen, hq⟩
  · rintro ⟨given, q, hchosen, hq⟩
    exact ⟨given, hchosen, q, hq⟩

/-- Nothing is reported of numbers, nor of infinities. -/
theorem problem?_integer (h : IsInteger v signed bits) : problem? room r place v = none ↔
    ∃ given, r.chosen? (inputName place v) = some given ∧
      ((∃ q, given.Denotes q) ∨ ∃ negative, given = .float (.infinite negative)) := by
  unfold problem?
  cases hchosen : r.chosen? (inputName place v) with
  | none => simp
  | some given =>
    simp only [argumentFor_integer h, Option.some.injEq, exists_eq_left']
    cases hargument : integerArgument given with
    | ok a =>
      obtain ⟨q, hq, -⟩ := integerArgument_eq_ok.1 hargument
      exact ⟨fun _ => .inl ⟨q, hq⟩, fun _ => rfl⟩
    | error refusal =>
      have hno : ¬∃ q, given.Denotes q := by
        rintro ⟨q, hq⟩
        rw [integerArgument_eq_ok.2 ⟨q, hq, rfl⟩] at hargument
        cases hargument
      cases refusal with
      | reported reason =>
        have hfinite : ¬∃ negative, given = .float (.infinite negative) := by
          rw [← integerArgument_eq_fatal, hargument]
          rintro ⟨f, ⟨⟩⟩
        simp [hno, hfinite]
      | fatal f => exact ⟨fun _ => .inr (integerArgument_eq_fatal.1 ⟨f, hargument⟩), fun _ => rfl⟩

theorem argumentFor_fatal {type given : Json} {f : Fault} (h : argumentFor room type given = .error (.fatal f)) :
    f.IsExcess ∨ f = .noSuchMember := by
  unfold argumentFor at h
  split at h
  · exact .inl (failsOnly_argument _ _ _ h)
  · cases h
    exact .inr rfl

/-- Arguments and problems are both signs that every input has been settled. -/
theorem settled_of_argumentsFor (hnamed : ∀ v ∈ ins, IsNamed v) (h : (∃ args, argumentsFor room ins r = .ok args) ∨
      ∃ ps, argumentsFor room ins r = .error (.failure (.rejected ps))) :
    ∀ place v, ins[place]? = some v → IsSettled room r place v := by
  intro place v hv
  by_contra hnot
  obtain ⟨type, given, f, hfatal, hrun⟩ :=
    Tally.addAll_unsettled hnamed {} hv (by simpa using hnot)
  have hargs : argumentsFor room ins r = .error f := by
    rw [argumentsFor, hrun]
    rfl
  rw [hargs] at h
  rcases h with ⟨args, ⟨⟩⟩ | ⟨ps, hps⟩
  cases hps
  rcases argumentFor_fatal hfatal with (h | h) | h <;> cases h

/-- Where there are arguments, each input has its own at its place. -/
theorem arguments_of_ok {args : List Argument} (hnamed : ∀ v ∈ ins, IsNamed v)
    (h : argumentsFor room ins r = .ok args) :
    args.length = ins.length ∧
      ∀ place v, ins[place]? = some v → args[place]? = argument? room r place v ∧ argument? room r place v ≠ none := by
  have hsettled := settled_of_argumentsFor hnamed (.inl ⟨args, h⟩)
  rw [argumentsFor_eq hnamed hsettled] at h
  split at h
  next hnil =>
    have hsome := (problems_eq_nil_iff hsettled).1 hnil
    obtain ⟨hlength, hplaces⟩ := arguments_inPlace hsome
    cases h
    exact ⟨hlength, fun place v hv => ⟨hplaces place v hv, hsome place v hv⟩⟩
  next => cases h

/-- A refusal lists the problems of the inputs. -/
theorem problems_of_rejected {ps : List RawText} (hnamed : ∀ v ∈ ins, IsNamed v)
    (h : argumentsFor room ins r = .error (.failure (.rejected ps))) : ps = problems room r ins := by
  rw [argumentsFor_eq hnamed (settled_of_argumentsFor hnamed (.inr ⟨ps, h⟩))] at h
  split at h <;> cases h
  rfl

theorem types_getElem? {ss : List String} {type : Json} (h : types ins = .ok ss) (hv : ins[place]? = some v)
    (htype : v.get? "type" = some type) : ss[place]? = some type.display.shown := by
  induction ins generalizing ss place with
  | nil => cases hv
  | cons w ins ih =>
    rw [types] at h
    cases hw : w.get? "type" with
    | none =>
      rw [hw] at h
      cases h
    | some type' =>
      rw [hw] at h
      obtain ⟨rest, hrest, hss⟩ := map_eq_ok.1 h
      rw [← hss]
      cases place with
      | zero =>
        cases hv
        rw [htype] at hw
        cases hw
        rfl
      | succ place =>
        rw [List.getElem?_cons_succ]
        exact ih hrest hv

theorem readAll_getElem? {ss : List String} {ts : List AbiType} {s : String} {t : AbiType} {i : Nat}
    (h : AbiType.readAll ss = .ok ts) (hs : ss[i]? = some s) (ht : AbiType.read s = .ok t) : ts[i]? = some t := by
  induction ss generalizing ts i with
  | nil => cases hs
  | cons s' ss ih =>
    obtain ⟨t', ht', h⟩ := bind_eq_ok.1 h
    obtain ⟨rest, hrest, hts⟩ := map_eq_ok.1 h
    rw [← hts]
    cases i with
    | zero =>
      cases hs
      rw [ht] at ht'
      cases ht'
      rfl
    | succ i =>
      rw [List.getElem?_cons_succ]
      exact ih hrest hs

theorem checkAll_getElem? {ts : List AbiType} {args : List Argument} {t : AbiType} {a : Argument} {i : Nat}
    (h : AbiType.checkAll ts args = .ok ()) (ht : ts[i]? = some t) (ha : args[i]? = some a) :
    t.check a = .ok () := by
  induction ts generalizing args i with
  | nil => cases ht
  | cons t' ts ih =>
    cases args with
    | nil => cases ha
    | cons a' args =>
      rw [AbiType.checkAll] at h
      obtain ⟨_, hhead, hrest⟩ := bind_eq_ok.1 h
      cases i with
      | zero =>
        cases ht
        cases ha
        exact hhead
      | succ i => exact ih hrest ht ha

/-- Arguments that are encoded are within the bounds of their types. -/
theorem inRange_of_encoded {args : List Argument} {bytes : List UInt8} {n : Int}
    (h : encoded ins args = .ok bytes) (hv : ins[place]? = some v) (hinteger : IsInteger v signed bits)
    (ha : args[place]? = some (.int n)) : InRange signed bits n := by
  obtain ⟨ss, htypes, h⟩ := bind_eq_ok.1 h
  have hs : ss[place]? = some (integerType signed bits) := types_getElem? htypes hv hinteger.type
  obtain ⟨ts, hread, -, hcheck, -⟩ := AbiType.encode_eq_ok.1 h
  have ht : ts[place]? = some (asType signed bits) := readAll_getElem? hread hs (read_integerType hinteger.width)
  exact (check_asType n).1 (checkAll_getElem? hcheck ht ha)

/-- Whole numbers within the bounds of their types can be encoded together. -/
theorem encoded_of_inRange {args : List Argument} (hinteger : ∀ v ∈ ins, ∃ signed bits, IsInteger v signed bits)
    (hlength : args.length = ins.length)
    (h : ∀ (place : Nat) v signed bits, ins[place]? = some v → IsInteger v signed bits →
      ∃ n, args[place]? = some (.int n) ∧ InRange signed bits n) : ∃ bytes, encoded ins args = .ok bytes := by
  -- every stage succeeds, by induction on the inputs with their arguments
  have hstages : ∃ ss ts, types ins = .ok ss ∧ AbiType.readAll ss = .ok ts ∧ ts.length = ins.length ∧
      AbiType.checkAll ts args = .ok () ∧ Argument.illFormedAmong? args = none ∧ AbiType.fitAll ts args = true ∧
      ∀ start, AbiType.placesFit start (AbiType.writeAll ts args) = true := by
    induction ins generalizing args with
    | nil =>
      obtain rfl := List.length_eq_zero_iff.1 hlength
      exact ⟨[], [], rfl, rfl, rfl, rfl, rfl, rfl, fun _ => rfl⟩
    | cons v ins ih =>
      obtain ⟨a, args, rfl⟩ := List.exists_cons_of_length_eq_add_one hlength
      obtain ⟨signed, bits, hv⟩ := hinteger v List.mem_cons_self
      obtain ⟨n, hn, hrange⟩ := h 0 v signed bits rfl hv
      cases hn
      obtain ⟨ss, ts, htypes, hread, hcount, hcheck, hwell, hfit, hplaces⟩ :=
        ih (fun w hw => hinteger w (List.mem_cons_of_mem v hw)) (Nat.succ.inj hlength)
          fun place w signed bits hw hwi => h (place + 1) w signed bits hw hwi
      refine ⟨integerType signed bits :: ss, asType signed bits :: ts, ?_, ?_, congrArg Nat.succ hcount, ?_, hwell, ?_,
        fun start => ?_⟩
      · rw [types, hv.type, htypes]
        rfl
      · rw [AbiType.readAll, read_integerType hv.width, hread]
        rfl
      · rw [AbiType.checkAll, (check_asType n).2 hrange]
        exact hcheck
      · rw [AbiType.fitAll, fits_asType, hfit]
        rfl
      · rw [AbiType.writeAll, isDynamic_asType]
        exact hplaces start
  obtain ⟨ss, ts, htypes, hread, hcount, hcheck, hwell, hfit, hplaces⟩ := hstages
  have hfits : (AbiType.tuple ts).fits (.list args) = true := by
    rw [AbiType.fits, hfit, AbiType.partsFit, hplaces]
    rfl
  refine ⟨AbiType.assemble (AbiType.writeAll ts args), ?_⟩
  rw [encoded, htypes]
  exact AbiType.encode_eq_ok.2 ⟨ts, hread, hlength.trans hcount.symm, hcheck, hwell, hfits, rfl⟩

/-- What becomes of an input of whole numbers. -/
structure Cuts (room : Nat) (abi : Json) (ins : List Json) (r : Request) (place : Nat) (v : Json) (signed : Bool)
    (bits : Nat) : Prop where
  /-- Its argument is the number that is chosen for it without its fraction, which is equal to that number
  exactly where there is no fraction. -/
  returned : ∀ args, arguments room abi r = .ok args → ∃ given q, r.chosen? (inputName place v) = some given ∧
    given.Denotes q ∧ args[place]? = some (.int (cut q)) ∧ ((cut q : ℚ) = q ↔ ∃ n : ℤ, q = n)
  /-- The bounds of its type are met by encoding alone. -/
  encodes : ∀ args bytes n, encoded ins args = .ok bytes → args[place]? = some (.int n) → InRange signed bits n
  /-- It is a problem exactly where neither a number nor an infinity is chosen for it. -/
  reported : problem? room r place v = none ↔ ∃ given, r.chosen? (inputName place v) = some given ∧
    ((∃ q, given.Denotes q) ∨ ∃ negative, given = .float (.infinite negative))
  /-- An infinity ends everything, with neither arguments nor problems. -/
  escapes : ∀ negative, r.chosen? (inputName place v) = some (.float (.infinite negative)) →
    ∃ f, arguments room abi r = .error f ∧ ∀ ps, f ≠ .failure (.rejected ps)

/-- Inputs of whole numbers are given what is chosen for them without its fraction, in their range or not. A
refusal lists what is no number; where there are arguments for whole numbers alone, they can be encoded exactly
if each is within the bounds of its type. -/
theorem integer_arguments_cut {abi : Json} {ins : List Json} (hins : inputs abi = .ok ins)
    (hnamed : ∀ v ∈ ins, IsNamed v) (r : Request) :
    (∀ place v signed bits, ins[place]? = some v → IsInteger v signed bits →
      Cuts room abi ins r place v signed bits) ∧
    (∀ ps, arguments room abi r = .error (.failure (.rejected ps)) → ps = problems room r ins) ∧
    ((∀ v ∈ ins, ∃ signed bits, IsInteger v signed bits) → ∀ args, arguments room abi r = .ok args →
      ((∃ bytes, encoded ins args = .ok bytes) ↔ ∀ (place : Nat) v signed bits, ins[place]? = some v →
        IsInteger v signed bits → ∃ n, args[place]? = some (.int n) ∧ InRange signed bits n)) := by
  rw [arguments_eq hins]
  have hcut : ∀ args, argumentsFor room ins r = .ok args → ∀ place v signed bits, ins[place]? = some v →
      IsInteger v signed bits → ∃ given q, r.chosen? (inputName place v) = some given ∧ given.Denotes q ∧
        args[place]? = some (.int (cut q)) := by
    intro args hargs place v signed bits hv hinteger
    obtain ⟨hplace, hsome⟩ := (arguments_of_ok hnamed hargs).2 place v hv
    obtain ⟨a, ha⟩ := Option.ne_none_iff_exists'.1 hsome
    obtain ⟨given, q, hchosen, hq, rfl⟩ := (argument?_integer hinteger).1 ha
    exact ⟨given, q, hchosen, hq, hplace.trans ha⟩
  refine ⟨fun place v signed bits hv hinteger => ?_, fun ps => problems_of_rejected hnamed, fun hall args hargs => ?_⟩
  · refine ⟨fun args hargs => ?_, fun args bytes n h => inRange_of_encoded h hv hinteger,
      problem?_integer hinteger, fun negative hchosen => ?_⟩
    · rw [arguments_eq hins] at hargs
      obtain ⟨given, q, hchosen, hq, ha⟩ := hcut args hargs place v signed bits hv hinteger
      exact ⟨given, q, hchosen, hq, ha, cut_eq_iff⟩
    · have hnot : ¬IsSettled room r (0 + place) v := by
        rw [Nat.zero_add, isSettled_integer hinteger]
        exact fun h => h negative hchosen
      obtain ⟨type, given, f, hfatal, hrun⟩ := Tally.addAll_unsettled hnamed {} hv hnot
      refine ⟨f, ?_, ?_⟩
      · rw [arguments_eq hins, argumentsFor, hrun]
        rfl
      · rintro ps rfl
        rcases argumentFor_fatal hfatal with (h | h) | h <;> cases h
  · constructor
    · rintro ⟨bytes, hbytes⟩ place v signed bits hv hinteger
      obtain ⟨given, q, -, -, ha⟩ := hcut args hargs place v signed bits hv hinteger
      exact ⟨cut q, ha, inRange_of_encoded hbytes hv hinteger ha⟩
    · exact encoded_of_inRange hall (arguments_of_ok hnamed hargs).1

theorem integer_arguments_cut_negative :
    let input (name type : String) := Json.obj [("name", .str name), ("type", .str type)]
    let ins := [input "supply" "uint256", input "share" "int8"]
    let abi := Json.arr [.obj [("type", .str "constructor"), ("inputs", .arr ins)]]
    let loss := Binary64.finite true (3 * 2 ^ 51) (-52) (by decide)
    let r : Request := ⟨.custom, ⟨"Widget", by decide⟩, none, [],
      [("supply", .int (-1)), ("share", .float loss)]⟩
    inputs abi = .ok ins ∧ (∀ v ∈ ins, IsNamed v) ∧ loss.value? = some (-3 / 2) ∧
      ∃ args, arguments 4096 abi r = .ok args ∧ args[0]? = some (.int (-1)) ∧ args[1]? = some (.int (-1)) ∧
        ¬∃ bytes, encoded ins args = .ok bytes := by
  intro input ins abi loss r
  have hins : inputs abi = .ok ins := rfl
  have hnamed : ∀ v ∈ ins, IsNamed v := by
    intro v hv
    simp only [ins, List.mem_cons, List.not_mem_nil, or_false] at hv
    rcases hv with rfl | rfl <;> exact isNamed_input _ _
  have hloss : loss.value? = some (-3 / 2) := congrArg some (by norm_num)
  have hsupply : IsInteger (input "supply" "uint256") false 256 := ⟨by decide, rfl⟩
  have hshare : IsInteger (input "share" "int8") true 8 := ⟨by decide, rfl⟩
  have hall : ∀ v ∈ ins, ∃ signed bits, IsInteger v signed bits := by
    intro v hv
    simp only [ins, List.mem_cons, List.not_mem_nil, or_false] at hv
    rcases hv with rfl | rfl
    · exact ⟨false, 256, hsupply⟩
    · exact ⟨true, 8, hshare⟩
  have hsettled : ∀ place v, ins[place]? = some v → IsSettled 4096 r place v := by
    rintro (_ | _ | place) v ⟨⟩
    · exact (isSettled_integer hsupply).2 fun _ h => nomatch h
    · refine (isSettled_integer hshare).2 fun negative h => ?_
      have hfinite := congrArg Binary64.isFinite (Json.float.inj (Option.some.inj h))
      cases hfinite
  obtain ⟨args, hargs⟩ : ∃ args, arguments 4096 abi r = .ok args :=
    ⟨_, (arguments_eq hins r).trans ((argumentsFor_eq hnamed hsettled).trans (if_pos (by decide +kernel)))⟩
  obtain ⟨hcuts, -, hencodes⟩ := integer_arguments_cut hins hnamed r
  obtain ⟨given, q, hchosen, hq, hfirst, -⟩ := (hcuts 0 _ false 256 rfl hsupply).returned args hargs
  cases hchosen
  cases hq
  rw [cut_intCast] at hfirst
  obtain ⟨given, q, hchosen, hq, hsecond, -⟩ := (hcuts 1 _ true 8 rfl hshare).returned args hargs
  cases hchosen
  cases hq with
  | float hvalue =>
    rw [hloss] at hvalue
    cases hvalue
    have hcut : cut (-3 / 2) = -1 := by norm_num [cut]
    rw [hcut] at hsecond
    refine ⟨hins, hnamed, hloss, args, hargs, hfirst, hsecond, fun hbytes => ?_⟩
    obtain ⟨n, hn, hrange⟩ := (hencodes hall args hargs).1 hbytes 0 _ false 256 rfl hsupply
    rw [hfirst] at hn
    cases hn
    exact absurd hrange.1 (by decide)

end Deployment

end Solwright
