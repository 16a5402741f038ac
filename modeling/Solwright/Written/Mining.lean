import Solwright.Family
import Solwright.Source.Structure
import Solwright.Text.Fence

/-!
Mining free text for a contract: its code, and its name, symbol, family and features as the code or
the prose around it tells them.
-/

namespace Solwright.Mining

open Solwright.Text

def upToFence? : List Char → Option (List Char)
  | [] => none
  | c :: s => if fence.isPrefixOf (c :: s) then some [] else (upToFence? s).map (c :: ·)

/-- A fenced block of Solidity: the text between a fence whose line begins with the language and the
next fence. -/
def solidityBlock? (_before : Option Char) (s : List Char) : Option (List Char) :=
  ((after? fence s).bind (afterFolded? "solidity".toList)).bind fun s =>
    match s.dropWhile (· != '\n') with
    | [] => none
    | _ :: body => upToFence? body

def isLineBlank (c : Char) : Bool :=
  isBlank c && c != '\n'

def plainBlock? (_before : Option Char) (s : List Char) : Option (List Char) :=
  (after? fence s).bind fun s =>
    match s.dropWhile isLineBlank with
    | '\n' :: body => upToFence? body
    | _ => none

def looksLikeSolidity (s : List Char) : Bool :=
  contains Source.pragmaWords s || contains Source.contractWord s

def upToLast? (last : Char) (s : List Char) : Option (List Char) :=
  match s.reverse.dropWhile (· != last) with
  | [] => none
  | r => some r.reverse

def licenceWords : List Char := "// SPDX-License-Identifier".toList

/-- Source without a fence: from its licence line to the last closing brace. -/
def licensed? (_before : Option Char) (s : List Char) : Option (List Char) :=
  if licenceWords.isPrefixOf s then upToLast? '\x7d' s else none

/-- The code that a text holds. Fenced Solidity is preferred; of plain blocks only the first one is
looked at. -/
def code? (s : List Char) : Option (List Char) :=
  match firstMatch solidityBlock? none s with
  | some block => some (trim block)
  | none =>
    match (firstMatch plainBlock? none s).filter fun block => looksLikeSolidity (trim block) with
    | some block => some (trim block)
    | none =>
      match firstMatch licensed? none s with
      | some source => some (trim source)
      | none => if contains Source.pragmaWords s then some (trim s) else none

def isGap (c : Char) : Bool :=
  c == ':' || isBlank c

def labelled? (label : String) (s : List Char) : Option (List Char) :=
  ((afterFolded? label.toList s).bind (afterSome? isGap)).bind fun s =>
    (foldedIdentifier? s).map (·.1)

def statedName? (_before : Option Char) (s : List Char) : Option (List Char) :=
  labelled? "contract name" s

def plainName? (before : Option Char) (s : List Char) : Option (List Char) :=
  if before.any isWord then none else labelled? "name" s

/-- A quoted name in front of the word `contract`. -/
def quotedName? (_before : Option Char) (s : List Char) : Option (List Char) :=
  match (after? ['"'] s).bind foldedIdentifier? with
  | some (name, s) =>
    (((after? ['"'] s).bind (afterSome? isBlank)).bind (afterFolded? "contract".toList)).map
      fun _ => name
  | none => none

def firstOf (fs : List (Option Char → List Char → Option (List Char))) (s : List Char) :
    Option String :=
  (fs.findSome? fun f => firstMatch f none s).map String.ofList

/-- The name of a contract: the first one that the code declares, else one that the prose gives. -/
def name? (text : String) (code : String) : Option String :=
  (Source.firstDeclared? code).or (firstOf [statedName?, plainName?, quotedName?] text.toList)

def quotedRun? (p : Char → Bool) (s : List Char) : Option (List Char) :=
  (after? ['"'] s).bind fun s =>
    let w := s.takeWhile p
    if !w.isEmpty && (s.dropWhile p).head? == some '"' then some w else none

def codeSymbol? (_before : Option Char) (s : List Char) : Option (List Char) :=
  (afterFolded? "symbol".toList s).bind fun s =>
    quotedRun? (fun c => (foldChar c).isAlphanum) (s.dropWhile isGap)

def afterQuote? (s : List Char) : Option (List Char) :=
  (after? ['"'] s).bind fun s => after? ['"'] (s.dropWhile (· != '"'))

def baseCallSymbol? (before : Option Char) (s : List Char) : Option (List Char) :=
  if before.any isWord then none else
  let skip := List.dropWhile isBlank
  (after? "ERC".toList s).bind fun s =>
  ((after? "20".toList s).or (after? "721".toList s)).bind fun s =>
  (after? ['('] (skip s)).bind fun s =>
  (afterQuote? (skip s)).bind fun s =>
  (after? [','] (skip s)).bind fun s =>
  quotedRun? Char.isAlphanum (skip s)

def quotedSymbol? (_before : Option Char) (s : List Char) : Option (List Char) :=
  ((afterFolded? "symbol".toList s).bind (afterSome? isGap)).bind (quotedRun? Char.isAlphanum)

/-- A word of two to six capitals after a label. -/
def capitals? (label : String) (_before : Option Char) (s : List Char) : Option (List Char) :=
  ((afterFolded? label.toList s).bind (afterSome? isGap)).bind fun s =>
    let w := s.takeWhile Char.isUpper
    if 2 ≤ w.length && w.length ≤ 6 && !(s.dropWhile Char.isUpper).head?.any isWord then some w
    else none

def symbol? (text : String) (code : String) : Option String :=
  (firstOf [codeSymbol?, baseCallSymbol?] code.toList).or
    (firstOf [quotedSymbol?, capitals? "symbol", capitals? "ticker"] text.toList)

def content (text code : String) : List Char :=
  lower (text.toList ++ ' ' :: code.toList)

def mentions (s : List Char) (ws : List String) : Bool :=
  ws.any fun w => contains w.toList s

def familyWords : List (List String × Family) :=
  [(["erc721", "nft", "non-fungible"], .nonFungible),
   (["erc1155", "multi-token", "multi token"], .multiToken),
   (["governance", "voting", "erc20votes", "dao"], .governance),
   (["erc20", "token", "fungible"], .fungible)]

def family (text code : String) : Family :=
  let s := content text code
  ((familyWords.find? fun r => mentions s r.1).map (·.2)).getD .custom

def featureWords : List (String × List String) :=
  [("mintable", ["mintable", "mint", "minting"]),
   ("burnable", ["burnable", "burn", "burning"]),
   ("pausable", ["pausable", "pause", "pausing"]),
   ("capped", ["capped", "maximum supply", "erc20capped"]),
   ("permit", ["permit", "signature", "meta-transaction"]),
   ("enumerable", ["enumerable", "enumerate", "list all tokens"]),
   ("uri_storage", ["uri storage", "uristorage", "metadata", "token uri"]),
   ("royalty", ["royalty", "royalties", "creator fee", "erc2981"]),
   ("supply", ["erc1155supply", "supply tracking"])]

/-- The features that a text speaks of. Every contract is taken to have an owner. -/
def features (text code : String) : List String :=
  let s := content text code
  (featureWords.filter fun r => mentions s r.2).map (·.1) ++ ["ownable"]

end Solwright.Mining
