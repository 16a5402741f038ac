import Solwright.Number.Integer
import Solwright.Request

/-!
Suggestions: structured readings of a free-text request. A suggestion always describes a request; a
symbol that is none is left out of it.
-/

namespace Solwright

structure Suggestion where
  family : Family
  contractName : ContractName
  symbol : Option RawText
  initialSupply : Option RawText
  features : List RawText
  reasoning : String

namespace Suggestion

open Schema

def supplyField : Field := ⟨"initialSupply", "initial_supply"⟩

/-- A supply: a text, or a whole number, which becomes its decimal text. -/
def checkSupply : Json → Checked (Option RawText)
  | .bool b => .refuse (.refused "initialSupply must be a number or numeric string") (.bool b)
  | .int n => .accept (some (Number.integerText n))
  | v => nullable text v

def ofMembers (ms : List (RawText × Json)) : Checked Suggestion :=
  Suggestion.mk <$> required (.plain "family") Family.check ms
    <*> required Request.nameField ContractName.check ms
    <*> optional (.plain "symbol") (nullable text) none ms
    <*> optional supplyField checkSupply none ms
    <*> required (.plain "features") (list text) ms
    <*> required (.plain "reasoning") someText ms

def recordName : String := "AnalysisSuggestion"

def read (v : Json) : Except Rejection Suggestion :=
  match v with
  | .obj ms => (ofMembers ms).named recordName
  | v => .error ⟨recordName, [⟨[], .notRecord recordName, v⟩]⟩

def json (s : Suggestion) : Json :=
  .obj [("family", .str s.family.name), ("contractName", .str s.contractName.text),
    ("symbol", .rawText? s.symbol), ("initialSupply", .rawText? s.initialSupply),
    ("features", .rawTexts s.features), ("reasoning", .str s.reasoning)]

/-- The request that a suggestion describes. Further parameters win over the suggested supply. -/
def toRequest (s : Suggestion) (parameters : List (RawText × Json)) : Request where
  family := s.family
  contractName := s.contractName
  symbol := s.symbol.bind Symbol.ofText?
  features := s.features
  parameters :=
    putMembers (s.initialSupply.toList.map fun supply => ("initialSupply", supply.json)) parameters

end Suggestion

end Solwright
