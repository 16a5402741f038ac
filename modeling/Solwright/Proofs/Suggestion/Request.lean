import Solwright.Proofs.Schema.Fields
import Solwright.Proofs.Text.Ascii
import Solwright.Proofs.Text.Raw
import Solwright.Suggestion.Keywords
import Solwright.Suggestion.Parameters

/-! The request that a suggestion describes. Its fields pass the checks of a request as they are, so
making it never fails, and a symbol that the keywords of a text lead to is never left out of it. -/

namespace Solwright

open Solwright.Text Solwright.Schema

theorem Family.ofText?_name (f : Family) : ofText? f.name = some f := by cases f <;> decide

theorem Family.check_name (f : Family) : check (.str f.name) = .accept f := by
  simp [check, ofJson?, f.ofText?_name]

theorem ContractName.check_text (n : ContractName) : ContractName.check (.str n.text) = .accept n := by
  simp [check, wellFormedText, Checked.andThen, Checked.accept, n.wellFormed]
  rfl

theorem isBlank_of_isUpper {c : Char} (h : c.isUpper = true) : isBlank c = false := by
  have hn := isUpper_iff.1 h
  simp [isBlank]
  omega

theorem Symbol.check_text (s : Symbol) : Symbol.check (.str s.text) = .accept (some s) := by
  have h := s.wellFormed
  have hblank : s.text.toList.all isBlank = false := by
    rcases hl : s.text.toList with _ | ⟨c, rest⟩
    · rw [hl] at h
      cases h
    · simp only [isSymbol, hl, Bool.and_eq_true, List.all_cons] at h
      simp [isBlank_of_isUpper h.2.1]
  have hof : Symbol.ofText? s.text = some s := by simp [ofText?, h]
  simp [check, hblank, checkText, wellFormedText, Checked.andThen, Checked.accept, hof]
  rfl

theorem list_texts (ss : List RawText) : Schema.list text (.rawTexts ss) = .accept ss := by
  have htext : ∀ s : RawText, text s.json = .accept (id s) := text_json
  have h := items_map htext ss 0
  rwa [List.map_id] at h

/-- A text that is a symbol as it stands. -/
def RawText.isSymbol (t : RawText) : Bool := t.isFormed && Solwright.isSymbol t.shown.toList

theorem Symbol.ofText?_eq (t : RawText) :
    (ofText? t).map (fun symbol => RawText.formed symbol.text) = if t.isSymbol then some t else none := by
  cases t with
  | formed s => by_cases hs : Solwright.isSymbol s.toList = true <;> simp [ofText?, RawText.isSymbol, RawText.shown, hs]
  | illFormed ns => rfl

namespace Suggestion

variable (s : Suggestion) (parameters : List (RawText × Json))

/-- The fields that are handed over to make a request. -/
def fields : Json :=
  .obj [("family", .str s.family.name), ("contract_name", .str s.contractName.text),
    ("symbol", .rawText? (s.symbol.filter RawText.isSymbol)), ("features", .rawTexts s.features),
    ("parameters", .obj (s.toRequest parameters).parameters)]

theorem symbol_toRequest : (s.toRequest parameters).symbol.map (fun symbol => RawText.formed symbol.text) =
    s.symbol.filter RawText.isSymbol := by
  cases hs : s.symbol with
  | none => simp [toRequest, hs]
  | some t =>
    rw [toRequest, hs, Option.bind_some, Symbol.ofText?_eq]
    rfl

theorem check_symbol : Symbol.check (.rawText? (s.symbol.filter RawText.isSymbol)) =
    .accept (s.toRequest parameters).symbol := by
  rw [← symbol_toRequest s parameters]
  cases (s.toRequest parameters).symbol with
  | none => rfl
  | some symbol => exact symbol.check_text

/-- The checks of a request accept what a suggestion hands over. -/
theorem read_fields : Request.read (s.fields parameters) = .ok (s.toRequest parameters) := by
  unfold fields Request.read Request.ofMembers
  dsimp only
  rw [required_eq_accept (k := "family") (by simp [Field.find?, Field.plain])
      s.family.check_name,
    required_eq_accept (k := "contract_name") (by simp [Field.find?, Request.nameField, List.lookup_cons])
      s.contractName.check_text,
    optional_eq_accept (k := "symbol") (by simp [Field.find?, Field.plain, List.lookup_cons])
      (s.check_symbol parameters),
    optional_eq_accept (k := "features") (by simp [Field.find?, Field.plain, List.lookup_cons])
      (list_texts s.features),
    optional_eq_accept (k := "parameters") (v := .obj (s.toRequest parameters).parameters)
      (a := (s.toRequest parameters).parameters) (by simp [Field.find?, Field.plain, List.lookup_cons]) rfl]
  rfl

theorem membersOf_texts (ms : List (RawText × Json)) :
    membersOf (ms.map fun m => (m.1.json, m.2)) = .accept ms := by
  induction ms with
  | nil => rfl
  | cons m ms ih =>
    rw [List.map_cons, membersOf, ih, text_json]
    rfl

/-- No parameters that are an object keep a suggestion from making a request. -/
theorem requestWith_obj : s.requestWith (.obj parameters) = .ok (s.toRequest parameters) := by
  unfold requestWith parameterPairs
  dsimp only [Except.bind]
  rw [membersOf_texts]
  rfl

theorem requestWith_null : s.requestWith .null = .ok (s.toRequest []) := rfl

end Suggestion

end Solwright
