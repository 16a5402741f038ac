import Solwright.Failure
import Solwright.Schema
import Solwright.Text.Blank
import Solwright.Text.Case

/-!
The families of contracts, and the names by which they are known. Case and surrounding white space
of a name do not matter.
-/

namespace Solwright

open Solwright.Text

inductive Family
  | fungible
  | nonFungible
  | multiToken
  | governance
  | custom
  deriving DecidableEq

namespace Family

def all : List Family :=
  [.fungible, .nonFungible, .multiToken, .governance, .custom]

def name : Family → String
  | .fungible => "fungible-token"
  | .nonFungible => "non-fungible-token"
  | .multiToken => "multi-token"
  | .governance => "governance-token"
  | .custom => "custom"

/-- Every name that stands for a family. -/
def names : List (String × Family) :=
  all.map (fun f => (f.name, f)) ++
    [("erc20", .fungible), ("erc721", .nonFungible), ("nft", .nonFungible),
     ("erc1155", .multiToken), ("governance", .governance)]

def ofText? (s : String) : Option Family :=
  names.lookup (String.ofList (lower (trim s.toList)))

def ofJson? : Json → Option Family
  | .str s => ofText? s
  | _ => none

/-- The family that a value names, where that is one. -/
def parse (v : Json) : Except Failure Family :=
  match ofJson? v with
  | some f => .ok f
  | none => .error (.unknownFamily v)

def choices : String :=
  "'fungible-token', 'non-fungible-token', 'multi-token', 'governance-token' or 'custom'"

def check (v : Json) : Checked Family :=
  match ofJson? v, v with
  | some f, _ => .accept f
  | none, .illFormed _ => .refuse .notUnicode v
  | none, _ => .refuse (.notAmong choices) v

end Family

end Solwright
