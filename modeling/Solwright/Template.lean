import Solwright.Fragment

/-!
The base contract of each family. A base contract has seven kinds of places that a composition
fills; in its text each of them is a marker in doubled braces.
-/

namespace Solwright

open Solwright.Text

/-- A place of a base contract that is filled by composition. -/
inductive Slot
  | contractName
  | imports
  | parents
  | state
  | baseCalls
  | statements
  | methods
  deriving DecidableEq

namespace Slot

def all : List Slot :=
  [.contractName, .imports, .parents, .state, .baseCalls, .statements, .methods]

def word : Slot → String
  | .contractName => "CONTRACT_NAME"
  | .imports => "IMPORTS"
  | .parents => "INHERITANCE"
  | .state => "STATE_VARIABLES"
  | .baseCalls => "CONSTRUCTOR_CALLS"
  | .statements => "CONSTRUCTOR_BODY"
  | .methods => "FUNCTIONS"

def marker (s : Slot) : String :=
  "\x7b\x7b" ++ s.word ++ "\x7d\x7d"

end Slot

structure Parameter where
  name : String
  type : String
  description : String
  default : Option Nat := none

/-- A parameter as it is described to callers. Every parameter is required. -/
def Parameter.report (p : Parameter) : Json :=
  .obj [("name", .str p.name), ("type", .str p.type), ("description", .str p.description),
    ("required", .bool true), ("default", .int? (p.default.map Int.ofNat))]

structure Template where
  family : Family
  title : String
  description : String
  features : List Feature
  parameters : List Parameter
  imports : List String
  summary : String
  parents : List String
  state : List String := []
  constructorParameters : List String
  baseCalls : List String
  statements : List String := []
  methods : List Method := []

namespace Template

def ownerParameter : Parameter :=
  ⟨"owner", "address", "Contract owner address", none⟩

def supplyParameter : Parameter :=
  ⟨"initialSupply", "uint256", "Initial token supply", some 1000000⟩

def mintSupply : String :=
  "_mint(owner, initialSupply * 10 ** decimals());"

def ownable : String :=
  libraryPath "access/Ownable.sol"

def fungible : Template where
  family := .fungible
  title := "ERC-20 Token"
  description := "Standard fungible token contract"
  features := [.mintable, .burnable, .pausable, .capped, .permit]
  parameters :=
    [⟨"name", "string", "Token name", none⟩, ⟨"symbol", "string", "Token symbol", none⟩,
     supplyParameter, ownerParameter]
  imports := [libraryPath "token/ERC20/ERC20.sol", ownable]
  summary := "ERC20 token with optional extensions"
  parents := ["ERC20", "Ownable"]
  constructorParameters :=
    ["string memory name", "string memory symbol", "uint256 initialSupply", "address owner"]
  baseCalls := ["ERC20(name, symbol)", "Ownable(owner)"]
  statements := [mintSupply]

def nonFungible : Template where
  family := .nonFungible
  title := "ERC-721 NFT"
  description := "Non-fungible token contract"
  features := [.enumerable, .uriStorage, .burnable, .pausable, .royalty]
  parameters :=
    [⟨"name", "string", "NFT collection name", none⟩,
     ⟨"symbol", "string", "NFT collection symbol", none⟩, ownerParameter]
  imports := [libraryPath "token/ERC721/ERC721.sol", ownable]
  summary := "ERC721 collection with optional extensions"
  parents := ["ERC721", "Ownable"]
  state := ["uint256 private _nextTokenId;"]
  constructorParameters := ["string memory name", "string memory symbol", "address owner"]
  baseCalls := ["ERC721(name, symbol)", "Ownable(owner)"]
  methods :=
    [{ name := "mint"
       parameters := ["address to"]
       modifiers := ["public", "onlyOwner", "returns (uint256)"]
       body := ["uint256 tokenId = _nextTokenId++;", "_mint(to, tokenId);", "return tokenId;"] }]

def multiToken : Template where
  family := .multiToken
  title := "ERC-1155 Multi-Token"
  description := "Multi-token standard contract"
  features := [.burnable, .pausable, .supply]
  parameters := [⟨"uri", "string", "Metadata URI template", none⟩, ownerParameter]
  imports := [libraryPath "token/ERC1155/ERC1155.sol", ownable]
  summary := "ERC1155 multi-token contract with optional extensions"
  parents := ["ERC1155", "Ownable"]
  constructorParameters := ["string memory uri", "address owner"]
  baseCalls := ["ERC1155(uri)", "Ownable(owner)"]
  methods :=
    [{ name := "mint"
       parameters := ["address to", "uint256 id", "uint256 amount", "bytes memory data"]
       modifiers := ["public", "onlyOwner"]
       body := ["_mint(to, id, amount, data);"]
       layout := .spread },
     { name := "mintBatch"
       parameters :=
         ["address to", "uint256[] memory ids", "uint256[] memory amounts", "bytes memory data"]
       modifiers := ["public", "onlyOwner"]
       body := ["_mintBatch(to, ids, amounts, data);"]
       layout := .spread }]

def governance : Template where
  family := .governance
  title := "Governance Token"
  description := "DAO governance token with voting capabilities"
  features := []
  parameters := fungible.parameters
  imports :=
    [libraryPath "token/ERC20/ERC20.sol", libraryPath "token/ERC20/extensions/ERC20Permit.sol",
     libraryPath "token/ERC20/extensions/ERC20Votes.sol", ownable,
     libraryPath "utils/Nonces.sol"]
  summary := "Governance token with voting capabilities"
  parents := ["ERC20", "ERC20Permit", "ERC20Votes", "Ownable"]
  constructorParameters := fungible.constructorParameters
  baseCalls := ["ERC20(name, symbol)", "ERC20Permit(name)", "Ownable(owner)"]
  statements := [mintSupply]
  methods :=
    [Fragment.mint,
     { Fragment.fungibleUpdate "ERC20Votes" with
       note := some "The following functions are overrides required by Solidity." },
     { name := "nonces"
       parameters := ["address owner"]
       modifiers :=
         ["public", "view", Fragment.overriding "ERC20Permit" "Nonces", "returns (uint256)"]
       body := ["return super.nonces(owner);"]
       layout := .stacked }]

def custom : Template where
  family := .custom
  title := "Custom Contract"
  description := "Owned contract skeleton for specialized logic"
  features := [.pausable]
  parameters := [ownerParameter]
  imports := [ownable]
  summary := "Owned contract skeleton"
  parents := ["Ownable"]
  constructorParameters := ["address owner"]
  baseCalls := ["Ownable(owner)"]

def of : Family → Template
  | .fungible => fungible
  | .nonFungible => nonFungible
  | .multiToken => multiToken
  | .governance => governance
  | .custom => custom

def parameter? (t : Template) (name : String) : Option Parameter :=
  t.parameters.find? (·.name == name)

/-- The head of the constructor up to its base calls. A single parameter stays on the line. -/
def constructorHead (t : Template) : List String :=
  match t.constructorParameters with
  | [p] => ["    constructor(" ++ p ++ ") "]
  | ps => "    constructor(" :: itemLines 2 ps ++ ["    ) "]

/-- The parts of a base contract: its fixed text and the slots between, in order. -/
def parts (t : Template) : List (String ⊕ Slot) :=
  let head := joined "\n" <|
    ["// SPDX-License-Identifier: MIT", "pragma solidity ^0.8.20;", ""] ++
      t.imports.map importLine ++ [""]
  [.inl head, .inr .imports, .inl "\n\n/**\n * @title ", .inr .contractName,
   .inl ("\n * @dev " ++ t.summary ++ "\n */\ncontract "), .inr .contractName,
   .inl (" is " ++ joined ", " t.parents), .inr .parents,
   .inl (" \x7b\n" ++ joined "" (t.state.map fun l => indented 1 l ++ "\n") ++ indented 1 ""),
   .inr .state,
   .inl ("\n\n" ++ joined "\n" t.constructorHead ++ joined " " t.baseCalls), .inr .baseCalls,
   .inl (" \x7b\n" ++ indented 2 ""), .inr .statements,
   .inl (joined "" (t.statements.map fun l => "\n" ++ indented 2 l) ++ "\n    \x7d\n\n" ++
     joined "" (t.methods.map fun m => indented 1 m.text ++ "\n\n") ++ indented 1 ""),
   .inr .methods, .inl "\n\x7d\n"]

def fill (parts : List (String ⊕ Slot)) (f : Slot → String) : String :=
  joined "" (parts.map fun
    | .inl s => s
    | .inr slot => f slot)

def text (t : Template) : String :=
  fill t.parts Slot.marker

def report (t : Template) : Json :=
  .obj [("family", .str t.family.name), ("name", .str t.title),
    ("description", .str t.description), ("features", .texts (t.features.map Feature.name)),
    ("parameters", .arr (t.parameters.map Parameter.report))]

def catalogue : List Json :=
  Family.all.map fun f => (of f).report

end Template

end Solwright
