import Solwright.Family
import Solwright.Fault

/-!
Requests for a contract. A record is accepted with a contract name in Pascal case and, where there
is one, a symbol of two to six capitals; a blank symbol counts as none.
-/

namespace Solwright

open Solwright.Text

/-- A capital, then letters and digits, all of ASCII. -/
def isContractName : List Char → Bool
  | [] => false
  | c :: s => c.isUpper && s.all Char.isAlphanum

/-- Two to six capitals of ASCII. -/
def isSymbol (s : List Char) : Bool :=
  2 ≤ s.length && s.length ≤ 6 && s.all Char.isUpper

structure ContractName where
  text : String
  wellFormed : isContractName text.toList = true
  deriving DecidableEq

structure Symbol where
  text : String
  wellFormed : isSymbol text.toList = true
  deriving DecidableEq

def ContractName.check (v : Json) : Checked ContractName :=
  (Schema.wellFormedText v).andThen fun s =>
    if h : isContractName s.toList then .accept ⟨s, h⟩
    else .refuse (.notLike "^[A-Z][a-zA-Z0-9]*$") v

def Symbol.ofText? : RawText → Option Symbol
  | .formed s => if h : isSymbol s.toList then some ⟨s, h⟩ else none
  | .illFormed _ => none

def Symbol.checkText (v : Json) : Checked Symbol :=
  (Schema.wellFormedText v).andThen fun s =>
    match ofText? s with
    | some symbol => .accept symbol
    | none => .refuse (.notLike "^[A-Z]\x7b2,6\x7d$") v

def Symbol.check (v : Json) : Checked (Option Symbol) :=
  match v with
  | .str s => if s.toList.all isBlank then .accept none else some <$> checkText v
  | v => Schema.nullable checkText v

structure Request where
  family : Family
  contractName : ContractName
  symbol : Option Symbol
  features : List RawText
  parameters : List (RawText × Json)

namespace Request

open Schema

def nameField : Field := ⟨"contractName", "contract_name"⟩

def ofMembers (ms : List (RawText × Json)) : Checked Request :=
  Request.mk <$> required (.plain "family") Family.check ms
    <*> required nameField ContractName.check ms
    <*> optional (.plain "symbol") Symbol.check none ms
    <*> optional (.plain "features") (list text) [] ms
    <*> optional (.plain "parameters") object [] ms

def recordName : String := "GenerationRequest"

def read (v : Json) : Except Rejection Request :=
  match v with
  | .obj ms => (ofMembers ms).named recordName
  | v => .error ⟨recordName, [⟨[], .notRecord recordName, v⟩]⟩

/-- What assigning to a field of a request leads to: a request does not change, so every name but a
private one is refused. -/
def assign (field : String) (v : Json) : Option Rejection :=
  if field.startsWith "_" then none
  else some ⟨recordName, [⟨[.member field], .frozen, v⟩]⟩

def json (r : Request) : Json :=
  .obj [("family", .str r.family.name), ("contractName", .str r.contractName.text),
    ("symbol", .text? (r.symbol.map Symbol.text)), ("features", .rawTexts r.features),
    ("parameters", (Json.obj r.parameters).written)]

/-- How many values may stand inside one another in a parameter that is written out. -/
def levelLimit : Nat := 255

def dump (r : Request) : Except Fault Json :=
  if r.parameters.all fun p => p.2.levels ≤ levelLimit then .ok r.json
  else .error (.badValue "Maximum serialization depth exceeded")

end Request

end Solwright
