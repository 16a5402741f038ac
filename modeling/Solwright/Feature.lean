import Solwright.Json.Basic
import Solwright.Text.Blank
import Solwright.Text.Case

/-!
The optional features of contracts. A name that stands for no feature is no fault: requests may ask
for more than there is.
-/

namespace Solwright

open Solwright.Text

inductive Feature
  | mintable
  | burnable
  | pausable
  | capped
  | permit
  | enumerable
  | uriStorage
  | royalty
  | supply
  deriving DecidableEq

namespace Feature

/-- All features, in their order of registration. -/
def all : List Feature :=
  [.mintable, .burnable, .pausable, .capped, .permit, .enumerable, .uriStorage, .royalty, .supply]

def name : Feature → String
  | .mintable => "mintable"
  | .burnable => "burnable"
  | .pausable => "pausable"
  | .capped => "capped"
  | .permit => "permit"
  | .enumerable => "enumerable"
  | .uriStorage => "uri_storage"
  | .royalty => "royalty"
  | .supply => "supply"

/-- The feature that a text names, up to case and surrounding white space. -/
def ofText? : RawText → Option Feature
  | .formed s =>
    let w := String.ofList (lower (trim s.toList))
    all.find? (·.name == w)
  | .illFormed _ => none

def ofJson? : Json → Option Feature
  | .str s => ofText? (.formed s)
  | _ => none

end Feature

end Solwright
