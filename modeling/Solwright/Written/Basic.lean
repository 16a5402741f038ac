import Solwright.Family

/-!
Contracts that a model wrote, with what is known about them. A family that is not known counts as
custom.
-/

namespace Solwright

structure WrittenContract where
  code : String
  name : Option RawText
  symbol : Option RawText
  family : Family
  features : List RawText
  explanation : Option RawText

namespace WrittenContract

open Schema

def codeField : Field := ⟨"contractCode", "contract_code"⟩

def nameField : Field := ⟨"contractName", "contract_name"⟩

def familyField : Field := ⟨"contractType", "family"⟩

/-- A family, custom where it is not known. -/
def checkFamily (v : Json) : Checked Family :=
  .accept ((Family.ofJson? v).getD .custom)

def ofMembers (ms : List (RawText × Json)) : Checked WrittenContract :=
  WrittenContract.mk <$> required codeField someText ms
    <*> optional nameField (nullable text) none ms
    <*> optional (.plain "symbol") (nullable text) none ms
    <*> optional familyField checkFamily .custom ms
    <*> optional (.plain "features") (list text) [] ms
    <*> optional (.plain "explanation") (nullable text) none ms

def recordName : String := "GeneratedContract"

def read (v : Json) : Except Rejection WrittenContract :=
  match v with
  | .obj ms => (ofMembers ms).named recordName
  | v => .error ⟨recordName, [⟨[], .notRecord recordName, v⟩]⟩

def members (c : WrittenContract) : List (RawText × Json) :=
  [("contractCode", .str c.code), ("contractName", .rawText? c.name), ("symbol", .rawText? c.symbol),
    ("contractType", .str c.family.name), ("features", .rawTexts c.features),
    ("explanation", .rawText? c.explanation)]

end WrittenContract

end Solwright
