import Solwright.Family
import Solwright.Feature
import Solwright.Method

/-!
What each feature contributes to a contract. Some families bring their own version of a feature that
others share; it goes before the common one.
-/

namespace Solwright

structure Fragment where
  imports : List String := []
  parents : List String := []
  state : List String := []
  baseCalls : List String := []
  statements : List String := []
  methods : List Method := []

def libraryPath (file : String) : String :=
  "@openzeppelin/contracts/" ++ file

def importLine (path : String) : String :=
  "import \"" ++ path ++ "\";"

namespace Fragment

/-- A fragment whose only source file declares its only parent. -/
def extending (folder parent : String) : Fragment :=
  { imports := [libraryPath (folder ++ "/" ++ parent ++ ".sol")], parents := [parent] }

def overriding (a b : String) : String :=
  "override(" ++ a ++ ", " ++ b ++ ")"

/-- A function that calls a function of an internal base with the same arguments. -/
def pausing (name action : String) : Method :=
  { name := name, parameters := [], modifiers := ["public", "onlyOwner"], body := [action] }

def pauseMethods : List Method :=
  [pausing "pause" "_pause();", pausing "unpause" "_unpause();"]

def fungibleUpdate (parent : String) : Method :=
  { name := "_update"
    parameters := ["address from", "address to", "uint256 value"]
    modifiers := ["internal", overriding "ERC20" parent]
    body := ["super._update(from, to, value);"]
    layout := .stacked }

def nonFungibleUpdate (parent : String) : Method :=
  { name := "_update"
    parameters := ["address to", "uint256 tokenId", "address auth"]
    modifiers := ["internal", overriding "ERC721" parent, "returns (address)"]
    body := ["return super._update(to, tokenId, auth);"]
    layout := .stacked }

def multiTokenUpdate (parent : String) : Method :=
  { name := "_update"
    parameters :=
      ["address from", "address to", "uint256[] memory ids", "uint256[] memory values"]
    modifiers := ["internal", overriding "ERC1155" parent]
    body := ["super._update(from, to, ids, values);"]
    layout := .stacked }

/-- The announcement of the interfaces of a collection. -/
def supportsInterface (parent : String) : Method :=
  { name := "supportsInterface"
    parameters := ["bytes4 interfaceId"]
    modifiers := ["public", "view", overriding "ERC721" parent, "returns (bool)"]
    body := ["return super.supportsInterface(interfaceId);"]
    layout := .stacked }

def increaseBalance : Method :=
  { name := "_increaseBalance"
    parameters := ["address account", "uint128 value"]
    modifiers := ["internal", overriding "ERC721" "ERC721Enumerable"]
    body := ["super._increaseBalance(account, value);"]
    layout := .stacked }

def tokenURI : Method :=
  { name := "tokenURI"
    parameters := ["uint256 tokenId"]
    modifiers :=
      ["public", "view", overriding "ERC721" "ERC721URIStorage", "returns (string memory)"]
    body := ["return super.tokenURI(tokenId);"]
    layout := .stacked }

def mint : Method :=
  { name := "mint"
    parameters := ["address to", "uint256 amount"]
    modifiers := ["public", "onlyOwner"]
    body := ["_mint(to, amount);"] }

def setDefaultRoyalty : Method :=
  { name := "setDefaultRoyalty"
    parameters := ["address receiver", "uint96 feeNumerator"]
    modifiers := ["public", "onlyOwner"]
    body := ["_setDefaultRoyalty(receiver, feeNumerator);"] }

def common : Feature → Fragment
  | .mintable => { methods := [mint] }
  | .burnable => extending "token/ERC20/extensions" "ERC20Burnable"
  | .pausable => { extending "utils" "Pausable" with methods := pauseMethods }
  | .capped =>
    { extending "token/ERC20/extensions" "ERC20Capped" with
      state := ["uint256 private constant _SUPPLY_CAP = 1_000_000_000 * 10 ** 18;"]
      baseCalls := ["ERC20Capped(_SUPPLY_CAP)"]
      methods := [fungibleUpdate "ERC20Capped"] }
  | .permit =>
    { extending "token/ERC20/extensions" "ERC20Permit" with
      baseCalls := ["ERC20Permit(name)"] }
  | .enumerable =>
    { extending "token/ERC721/extensions" "ERC721Enumerable" with
      methods :=
        [nonFungibleUpdate "ERC721Enumerable", increaseBalance,
         supportsInterface "ERC721Enumerable"] }
  | .uriStorage =>
    { extending "token/ERC721/extensions" "ERC721URIStorage" with
      methods := [tokenURI, supportsInterface "ERC721URIStorage"] }
  | .royalty =>
    { extending "token/common" "ERC2981" with
      statements := ["_setDefaultRoyalty(owner, 250); // 2.5% royalty"]
      methods := [setDefaultRoyalty, supportsInterface "ERC2981"] }
  | .supply =>
    { extending "token/ERC1155/extensions" "ERC1155Supply" with
      methods := [multiTokenUpdate "ERC1155Supply"] }

def ofFamily? : Family → Feature → Option Fragment
  | .fungible, .pausable =>
    some { extending "token/ERC20/extensions" "ERC20Pausable" with
      methods := pauseMethods ++ [fungibleUpdate "ERC20Pausable"] }
  | .nonFungible, .burnable => some (extending "token/ERC721/extensions" "ERC721Burnable")
  | .nonFungible, .pausable =>
    some { extending "token/ERC721/extensions" "ERC721Pausable" with
      methods := pauseMethods ++ [nonFungibleUpdate "ERC721Pausable"] }
  | .multiToken, .burnable => some (extending "token/ERC1155/extensions" "ERC1155Burnable")
  | .multiToken, .pausable =>
    some { extending "token/ERC1155/extensions" "ERC1155Pausable" with
      methods := pauseMethods ++ [multiTokenUpdate "ERC1155Pausable"] }
  | _, _ => none

/-- The fragment of a feature in a family, or in none. -/
def of (family : Option Family) (feature : Feature) : Fragment :=
  ((family.bind fun f => ofFamily? f feature).getD (common feature))

end Fragment

end Solwright
