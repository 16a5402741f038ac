import Solwright.Proofs.Json.Unfenced
import Solwright.Proofs.Schema.Fields
import Solwright.Proofs.Source.Declared
import Solwright.Written.Reply

/-! What an object says of a contract, and the contract that is made of it. Dropping fences from the
texts of the object drops them from those of the contract. -/

namespace Solwright.WrittenContract

open Solwright.Text Solwright.Json Schema

/-- The text of code points. -/
def shown (ns : List Nat) : String :=
  String.ofList (shownCodes ns)

/-- A text by its code points, or null. -/
def textOrNull : Option (List Nat) → Json
  | some ns => ofCodes ns
  | none => .null

/-- What is said of a contract, in texts by their code points. -/
structure Description where
  code : List Nat
  name : List Nat
  symbol : Option (List Nat)
  features : List (List Nat)
  explanation : Option (List Nat)

namespace Description

/-- An object says of a contract what a description says. It may have any other members. -/
structure Of (d : Description) (ms : List (RawText × Json)) : Prop where
  code : ms.lookup (.formed "contractCode") = some (ofCodes d.code)
  name : ms.lookup (.formed "contractName") = some (ofCodes d.name)
  symbol : ms.lookup (.formed "symbol") = some (textOrNull d.symbol)
  features : ms.lookup (.formed "features") = some (.arr (d.features.map ofCodes))
  explanation : ms.lookup (.formed "explanation") = some (textOrNull d.explanation)

/-- A contract is what a description says. -/
structure Fits (d : Description) (c : WrittenContract) : Prop where
  code : c.code = shown d.code
  name : c.name = some (.ofCodes d.name)
  symbol : c.symbol = d.symbol.map .ofCodes
  features : c.features = d.features.map .ofCodes
  explanation : c.explanation = d.explanation.map .ofCodes

/-- The contract of a description, with a family and the text that its code gives. -/
def contract (d : Description) (family : Family) (code : String) : WrittenContract :=
  ⟨code, some (.ofCodes d.name), d.symbol.map .ofCodes, family, d.features.map .ofCodes, d.explanation.map .ofCodes⟩

/-- The texts of a description. -/
def texts (d : Description) : List (List Nat) :=
  d.code :: d.name :: (d.symbol.toList ++ d.features ++ d.explanation.toList)

/-- No text of a description has a fence. -/
def Fenceless (d : Description) : Prop :=
  ∀ ns ∈ d.texts, ¬fence <:+: shownCodes ns

end Description

theorem text_ofCodes (ns : List Nat) : text (ofCodes ns) = .accept (.ofCodes ns) := by
  rw [← json_ofCodes, text_json]

theorem nullable_textOrNull (o : Option (List Nat)) :
    nullable text (textOrNull o) = .accept (o.map .ofCodes) := by
  cases o with
  | none => rfl
  | some ns =>
    rw [textOrNull, ← json_ofCodes, Option.map_some]
    cases RawText.ofCodes ns <;> rfl

theorem someText_ofCodes {ns : List Nat} (hne : ns ≠ []) (hhalf : ns.any isHalf = false) :
    someText (ofCodes ns) = .accept (shown ns) := by
  have hsome : (shown ns).isEmpty = false := by
    obtain ⟨n, ns, rfl⟩ := List.exists_cons_of_ne_nil hne
    simp [shown, shownCodes]
  rw [ofCodes, if_neg (by simp [hhalf])]
  change (if (shown ns).isEmpty then _ else _) = _
  rw [hsome]
  rfl

theorem someText_refuses {ns : List Nat} (h : ns = [] ∨ ns.any isHalf = true) :
    ∃ ps, someText (ofCodes ns) = .error ps := by
  rcases h with rfl | h
  · exact ⟨_, rfl⟩
  · rw [ofCodes, if_pos h]
    exact ⟨_, rfl⟩

theorem someText_cases (ns : List Nat) : (ns ≠ [] ∧ ns.any isHalf = false ∧
    someText (ofCodes ns) = .accept (shown ns)) ∨ ∃ ps, someText (ofCodes ns) = .error ps := by
  by_cases hne : ns = []
  · exact .inr (someText_refuses (.inl hne))
  · cases hhalf : ns.any isHalf with
    | true => exact .inr (someText_refuses (.inr hhalf))
    | false => exact .inl ⟨hne, rfl, someText_ofCodes hne hhalf⟩

variable {d : Description} {ms : List (RawText × Json)}

/-- Everything that is said of a contract but its code is accepted, whatever it is. -/
theorem Description.Of.ofMembers (h : d.Of ms) : ∃ family, ofMembers ms =
    d.contract family <$> (someText (ofCodes d.code)).within (.member "contractCode") := by
  have hcode : required codeField someText ms =
      (someText (ofCodes d.code)).within (.member "contractCode") := by
    rw [required, Field.find?_of_lookup (f := codeField) h.code]
    rfl
  have hname : Schema.optional nameField (nullable text) none ms = .accept (some (.ofCodes d.name)) :=
    optional_eq_accept (Field.find?_of_lookup h.name) (nullable_textOrNull (some d.name))
  have hsymbol : Schema.optional (.plain "symbol") (nullable text) none ms =
      .accept (d.symbol.map .ofCodes) :=
    optional_eq_accept (Field.find?_of_lookup h.symbol) (nullable_textOrNull d.symbol)
  have hfeatures : Schema.optional (.plain "features") (list text) [] ms =
      .accept (d.features.map .ofCodes) :=
    optional_eq_accept (Field.find?_of_lookup h.features) (items_map text_ofCodes d.features 0)
  have hexplanation : Schema.optional (.plain "explanation") (nullable text) none ms =
      .accept (d.explanation.map .ofCodes) :=
    optional_eq_accept (Field.find?_of_lookup h.explanation) (nullable_textOrNull d.explanation)
  have hfamily : ∃ family, Schema.optional familyField checkFamily .custom ms = .accept family := by
    unfold Schema.optional
    split
    · exact ⟨_, rfl⟩
    · exact ⟨_, rfl⟩
  obtain ⟨family, hfamily⟩ := hfamily
  refine ⟨family, ?_⟩
  rw [WrittenContract.ofMembers, hcode, hname, hsymbol, hfamily, hfeatures, hexplanation]
  cases (someText (ofCodes d.code)).within (.member "contractCode") <;> rfl

theorem withDeclaredName_of_ne {c : WrittenContract} {name : RawText} (h : c.name = some name)
    (hname : name ≠ "") : c.withDeclaredName = c := by
  unfold withDeclaredName
  split
  next hempty =>
    rw [h, Option.some.injEq] at hempty
    exact absurd hempty hname
  next hnone =>
    rw [h] at hnone
    cases hnone
  next => rfl

/-- What is made of an object that describes a contract, if anything is. -/
theorem Description.Of.of_ok (h : d.Of ms) {c : WrittenContract} (hc : ofReplyMembers ms = .ok c) :
    c.code = shown d.code ∧
      (c.name = some (.ofCodes d.name) ∨ c.name = (Source.firstDeclared? c.code).map .formed) ∧
      c.symbol = d.symbol.map .ofCodes ∧ c.features = d.features.map .ofCodes ∧
      c.explanation = d.explanation.map .ofCodes := by
  obtain ⟨family, hms⟩ := h.ofMembers
  rw [ofReplyMembers, hms] at hc
  rcases someText_cases d.code with ⟨-, -, hcode⟩ | ⟨ps, hcode⟩
  · rw [hcode] at hc
    cases hc
    unfold withDeclaredName
    split
    · exact ⟨rfl, .inr rfl, rfl, rfl, rfl⟩
    · exact ⟨rfl, .inr rfl, rfl, rfl, rfl⟩
    · exact ⟨rfl, .inl rfl, rfl, rfl, rfl⟩
  · rw [hcode] at hc
    cases hc

/-- A described contract with well formed code is read, and it is the one described. -/
theorem Description.Of.fits (h : d.Of ms) (hcode : d.code ≠ []) (hhalf : d.code.any isHalf = false)
    (hname : d.name ≠ []) : ∃ c, ofReplyMembers ms = .ok c ∧ d.Fits c := by
  obtain ⟨family, hms⟩ := h.ofMembers
  have hnamed : RawText.ofCodes d.name ≠ "" := by
    intro hempty
    have hcodes := (RawText.ofCodes_eq_formed hempty).2
    rw [String.toList_empty, shownCodes, eq_comm, List.map_eq_nil_iff] at hcodes
    exact hname hcodes
  refine ⟨d.contract family (shown d.code), ?_, ⟨rfl, rfl, rfl, rfl, rfl⟩⟩
  rw [ofReplyMembers, hms, someText_ofCodes hcode hhalf]
  exact congrArg Except.ok (withDeclaredName_of_ne rfl hnamed)

/-- Code that is not well formed is refused. -/
theorem Description.Of.wellFormed_of_ok (h : d.Of ms) {c : WrittenContract}
    (hc : ofReplyMembers ms = .ok c) : d.code.any isHalf = false := by
  obtain ⟨family, hms⟩ := h.ofMembers
  rcases someText_cases d.code with ⟨-, hhalf, -⟩ | ⟨ps, hcode⟩
  · exact hhalf
  · rw [ofReplyMembers, hms, hcode] at hc
    cases hc

variable {verbatim : Prop}

/-- The second of two descriptions says what the first one says, fences dropped. -/
structure Description.Drops (verbatim : Prop) (d d' : Description) : Prop where
  code : Json.Drops verbatim d.code d'.code
  name : Json.Drops verbatim d.name d'.name
  symbol : List.Forall₂ (Json.Drops verbatim) d.symbol.toList d'.symbol.toList
  features : List.Forall₂ (Json.Drops verbatim) d.features d'.features
  explanation : List.Forall₂ (Json.Drops verbatim) d.explanation.toList d'.explanation.toList

theorem Drops.of_ofCodes {ns ns₀ ns' : List Nat} (h : Json.Drops verbatim ns₀ ns')
    (hns : ofCodes ns₀ = ofCodes ns) : Json.Drops verbatim ns ns' := by
  have hshown := RawText.shownCodes_of_ofCodes (rawText_of_ofCodes hns)
  exact ⟨fun hno => (h.keeps (hshown ▸ hno)).trans hns, fun hv hf => hshown ▸ h.loses hv (hshown ▸ hf)⟩

theorem reworded_ofCodes {ns : List Nat} {w : Json} (h : Reworded (Json.Drops verbatim) (ofCodes ns) w) :
    ∃ ns', w = ofCodes ns' ∧ Json.Drops verbatim ns ns' := by
  obtain ⟨ns₀, ns', hns, rfl, hdrops⟩ := reworded_text h
  exact ⟨ns', rfl, Drops.of_ofCodes hdrops hns⟩

theorem reworded_textOrNull {o : Option (List Nat)} {w : Json}
    (h : Reworded (Json.Drops verbatim) (textOrNull o) w) : ∃ o', w = textOrNull o' ∧
      List.Forall₂ (Json.Drops verbatim) o.toList o'.toList := by
  cases o with
  | none => exact ⟨none, reworded_null h, .nil⟩
  | some ns =>
    obtain ⟨ns', rfl, hdrops⟩ := reworded_ofCodes h
    exact ⟨some ns', rfl, .cons hdrops .nil⟩

theorem reworded_texts {nss : List (List Nat)} {ws : List Json}
    (h : List.Forall₂ (Reworded (Json.Drops verbatim)) (nss.map ofCodes) ws) :
    ∃ nss', ws = nss'.map ofCodes ∧ List.Forall₂ (Json.Drops verbatim) nss nss' := by
  induction nss generalizing ws with
  | nil =>
    cases h
    exact ⟨[], rfl, .nil⟩
  | cons ns nss ih =>
    cases h with
    | cons hv hvs =>
      obtain ⟨ns', rfl, hns⟩ := reworded_ofCodes hv
      obtain ⟨nss', rfl, hnss⟩ := ih hvs
      exact ⟨ns' :: nss', rfl, .cons hns hnss⟩

/-- An object that describes a contract still does after its fences are dropped. -/
theorem Description.Of.drops {ns : List (RawText × Json)} (h : d.Of ms)
    (hms : RewordedMembers (Json.Drops verbatim) ms ns) : ∃ d', d'.Of ns ∧ d.Drops verbatim d' := by
  obtain ⟨v, hcode, hv⟩ := hms.lookup h.code
  obtain ⟨code, rfl, hcodes⟩ := reworded_ofCodes hv
  obtain ⟨v, hname, hv⟩ := hms.lookup h.name
  obtain ⟨name, rfl, hnames⟩ := reworded_ofCodes hv
  obtain ⟨v, hsymbol, hv⟩ := hms.lookup h.symbol
  obtain ⟨symbol, rfl, hsymbols⟩ := reworded_textOrNull hv
  obtain ⟨v, hexplanation, hv⟩ := hms.lookup h.explanation
  obtain ⟨explanation, rfl, hexplanations⟩ := reworded_textOrNull hv
  obtain ⟨v, hfeatures, hv⟩ := hms.lookup h.features
  obtain ⟨vs, rfl, hvs⟩ := reworded_arr hv
  obtain ⟨features, rfl, hall⟩ := reworded_texts hvs
  exact ⟨⟨code, name, symbol, features, explanation⟩,
    ⟨hcode, hname, hsymbol, hfeatures, hexplanation⟩, ⟨hcodes, hnames, hsymbols, hall, hexplanations⟩⟩

theorem map_ofCodes_of_drops {nss nss' : List (List Nat)}
    (h : List.Forall₂ (Json.Drops verbatim) nss nss') (hf : ∀ ns ∈ nss, ¬fence <:+: shownCodes ns) :
    nss'.map ofCodes = nss.map ofCodes := by
  induction h with
  | nil => rfl
  | @cons ns ns' nss nss' hns hnss ih =>
    rw [List.map_cons, List.map_cons, hns.keeps (hf ns List.mem_cons_self),
      ih fun ms hms => hf ms (List.mem_cons_of_mem ns hms)]

theorem textOrNull_of_drops {o o' : Option (List Nat)}
    (h : List.Forall₂ (Json.Drops verbatim) o.toList o'.toList)
    (hf : ∀ ns ∈ o.toList, ¬fence <:+: shownCodes ns) : textOrNull o' = textOrNull o := by
  have hmap := map_ofCodes_of_drops h hf
  cases o <;> cases o' <;> simp [textOrNull] at hmap ⊢
  exact hmap

theorem not_fence_of_shown {ns ns' : List Nat} (h : Json.Drops verbatim ns ns') (hv : verbatim)
    (hshown : shownCodes ns' = shownCodes ns) : ¬fence <:+: shownCodes ns := by
  intro hf
  have hlt := h.loses hv hf
  rw [hshown] at hlt
  exact Nat.lt_irrefl _ hlt

theorem not_fence_of_map_ofCodes {nss nss' : List (List Nat)}
    (h : List.Forall₂ (Json.Drops verbatim) nss nss') (hv : verbatim)
    (hshown : nss'.map RawText.ofCodes = nss.map .ofCodes) : ∀ ns ∈ nss, ¬fence <:+: shownCodes ns := by
  induction h with
  | nil => simp
  | @cons ns ns' nss nss' hns hnss ih =>
    obtain ⟨hhead, htail⟩ := List.cons.inj hshown
    intro ms hms
    rcases List.mem_cons.1 hms with rfl | hms
    · exact not_fence_of_shown hns hv (RawText.shownCodes_of_ofCodes hhead)
    · exact ih htail ms hms

theorem toList_map_ofCodes {o o' : Option (List Nat)} (h : o'.map RawText.ofCodes = o.map .ofCodes) :
    o'.toList.map RawText.ofCodes = o.toList.map .ofCodes := by
  rw [← Option.toList_map, ← Option.toList_map, h]

theorem Description.Drops.of_fenceless {d' : Description} {ns : List (RawText × Json)}
    (hd : d.Drops verbatim d') (hf : d.Fenceless) (h : d'.Of ns) : d.Of ns := by
  have hcode := hf d.code (by simp [texts])
  have hname := hf d.name (by simp [texts])
  have hsymbol := textOrNull_of_drops hd.symbol fun ms hms => hf ms (by simp [texts, hms])
  have hfeatures := map_ofCodes_of_drops hd.features fun ms hms => hf ms (by simp [texts, hms])
  have hexplanation := textOrNull_of_drops hd.explanation fun ms hms => hf ms (by simp [texts, hms])
  constructor
  · rw [h.code, hd.code.keeps hcode]
  · rw [h.name, hd.name.keeps hname]
  · rw [h.symbol, hsymbol]
  · rw [h.features, hfeatures]
  · rw [h.explanation, hexplanation]

theorem not_fence_of_firstDeclared? {source : String} {ns : List Nat}
    (h : (Source.firstDeclared? source).map RawText.formed = some (.ofCodes ns)) : ¬fence <:+: shownCodes ns := by
  obtain ⟨name, hname, hcodes⟩ := Option.map_eq_some_iff.1 h
  have hshown := (RawText.ofCodes_eq_formed hcodes.symm).2
  intro hf
  have htick : '`' ∈ shownCodes ns := hf.subset (by rw [fence_eq]; exact List.mem_cons_self)
  have hident := Source.isIdentChar_of_firstDeclared? hname '`' (by rwa [hshown])
  cases hident

/-- Where no escape spells a backtick, a contract that fits although fences were dropped had none. -/
theorem Description.Drops.fenceless {d' : Description} {ns : List (RawText × Json)} {c : WrittenContract}
    (hd : d.Drops verbatim d') (hv : verbatim) (h : d'.Of ns) (hc : ofReplyMembers ns = .ok c)
    (hfits : d.Fits c) : d.Fenceless := by
  obtain ⟨hcode, hname, hsymbol, hfeatures, hexplanation⟩ := h.of_ok hc
  have hnameless : ¬fence <:+: shownCodes d.name := by
    rcases hname with hname | hname
    · have hcodes := RawText.shownCodes_of_ofCodes (Option.some.inj (hname.symm.trans hfits.name))
      exact not_fence_of_shown hd.name hv hcodes
    · exact not_fence_of_firstDeclared? (hname.symm.trans hfits.name)
  intro ms hms
  simp only [texts, List.mem_cons, List.mem_append] at hms
  rcases hms with rfl | rfl | (hms | hms) | hms
  · exact not_fence_of_shown hd.code hv (String.ofList_injective (hcode.symm.trans hfits.code))
  · exact hnameless
  · exact not_fence_of_map_ofCodes hd.symbol hv (toList_map_ofCodes (hsymbol.symm.trans hfits.symbol)) ms hms
  · exact not_fence_of_map_ofCodes hd.features hv (hfeatures.symm.trans hfits.features) ms hms
  · exact not_fence_of_map_ofCodes hd.explanation hv
      (toList_map_ofCodes (hexplanation.symm.trans hfits.explanation)) ms hms

end Solwright.WrittenContract
