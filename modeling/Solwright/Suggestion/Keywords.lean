import Solwright.Suggestion.Basic
import Solwright.Text.Blank
import Solwright.Text.Case
import Solwright.Text.Upper

/-!
Reading a request by keywords. The first group of keywords that matches decides the family, every
group of feature keywords is tried, and the first word that looks like a name is the contract's. A
keyword matches the words that begin with it, so every text has a reading.
-/

namespace Solwright.Keywords

open Solwright.Text

structure FamilyRule where
  keywords : List String
  family : Family
  reasoning : String

def familyRules : List FamilyRule :=
  [⟨["nft", "721", "erc721", "collectible", "art", "unique"], .nonFungible,
    "Detected NFT-related keywords, suggesting ERC721 contract"⟩,
   ⟨["governance", "voting", "dao", "proposal"], .governance,
    "Detected governance-related keywords, suggesting governance token"⟩,
   ⟨["multi", "1155", "erc1155", "game", "item"], .multiToken,
    "Detected multi-token keywords, suggesting ERC1155 contract"⟩]

/-- The reading of a text without a keyword of a family. -/
def generalRule : FamilyRule :=
  ⟨[], .fungible, "General token request, suggesting standard ERC20"⟩

structure FeatureRule where
  keywords : List String
  feature : RawText

def featureRules : List FeatureRule :=
  [⟨["mint", "create"], "mintable"⟩, ⟨["burn", "destroy"], "burnable"⟩,
   ⟨["pause", "emergency"], "pausable"⟩, ⟨["cap", "limit"], "capped"⟩]

structure Defaults where
  contractName : ContractName
  symbol : RawText
  initialSupply : Option RawText
  features : List RawText

def defaults : Family → Defaults
  | .nonFungible => ⟨⟨"MyNFT", by decide⟩, "MNFT", none, ["ownable"]⟩
  | .governance => ⟨⟨"GovernanceToken", by decide⟩, "GOV", some (.formed "1000000"), []⟩
  | .multiToken => ⟨⟨"MultiToken", by decide⟩, "MULTI", none, ["ownable"]⟩
  | .fungible | .custom =>
    ⟨⟨"MyToken", by decide⟩, "MTK", some (.formed "1000000"), ["ownable", "mintable"]⟩

def isKeywordChar (c : Char) : Bool :=
  c.isLower || c.isDigit

/-- The lower-case words of a text: runs of ASCII letters and digits. -/
def keywordsOf (s : List Char) : List (List Char) :=
  runs isKeywordChar (lower s)

def hits (ws : List (List Char)) (keywords : List String) : Bool :=
  ws.any fun w => keywords.any fun k => k.toList.isPrefixOf w

def stopWords : List String :=
  ["Create", "Make", "Build", "Smart", "Contract", "Token", "Coin"]

/-- A word that may name a contract: three to nineteen ASCII letters with a capital in front and not
all capitals, and no stop word. -/
def isNameLike (w : List Char) : Bool :=
  2 < w.length && w.length < 20 && w.all Char.isAlpha && !w.all Char.isUpper &&
    !stopWords.contains (String.ofList w)

def nameOfWord? (w : List Char) : Option ContractName :=
  if h : isContractName (String.ofList w).toList ∧ isNameLike w then some ⟨String.ofList w, h.1⟩
  else none

def name? (s : List Char) : Option ContractName :=
  (words s).findSome? nameOfWord?

def familyRule (ws : List (List Char)) : FamilyRule :=
  (familyRules.find? fun r => hits ws r.keywords).getD generalRule

def addFeature (ws : List (List Char)) (features : List RawText) (r : FeatureRule) : List RawText :=
  if hits ws r.keywords && !features.contains r.feature then features ++ [r.feature] else features

def suggest (prompt : String) : Suggestion :=
  let ws := keywordsOf prompt.toList
  let rule := familyRule ws
  let base := defaults rule.family
  let name := name? prompt.toList
  { family := rule.family
    contractName := name.getD base.contractName
    symbol := some <| match name with
      | some n => .formed (upper (String.ofList (n.text.toList.take 5)))
      | none => base.symbol
    initialSupply := base.initialSupply
    features := featureRules.foldl (addFeature ws) base.features
    reasoning := rule.reasoning }

end Solwright.Keywords
