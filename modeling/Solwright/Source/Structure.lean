import Solwright.Source.Declaration
import Solwright.Text.Raw

/-!
The structural check of a source: a handful of properties that are cheap to test and without which
a compiler run is not worth its price.
-/

namespace Solwright.Source

open Solwright.Text

inductive Flaw
  | noPragma
  | noContract
  | braces
  | parentheses
  | declaration
  deriving DecidableEq

def Flaw.message : Flaw → RawText
  | .noPragma => "Missing pragma solidity directive"
  | .noContract => "No contract definition found"
  | .braces => "Unbalanced braces"
  | .parentheses => "Unbalanced parentheses"
  | .declaration => "Invalid contract declaration"

def pragmaWords : List Char := "pragma solidity".toList

/-- The word that begins a contract, with a blank after it. -/
def contractWord : List Char := "contract ".toList

def flaws (source : String) : List Flaw :=
  let s := source.toList
  (if contains pragmaWords s then [] else [.noPragma]) ++
  (if contains contractWord s then [] else [.noContract]) ++
  (if s.count '{' = s.count '}' then [] else [.braces]) ++
  (if s.count '(' = s.count ')' then [] else [.parentheses]) ++
  (if (declarations s).isEmpty then [.declaration] else [])

def problems (source : String) : List RawText :=
  (flaws source).map Flaw.message

end Solwright.Source
