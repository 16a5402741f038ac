import Solwright.Text.Join

/-!
Functions of a contract, and how they are laid out: the header on one line, or with each modifier on
a line of its own, or with each parameter on one.
-/

namespace Solwright

open Solwright.Text

inductive Layout
  | line
  | stacked
  | spread
  deriving DecidableEq

structure Method where
  name : String
  parameters : List String
  modifiers : List String
  body : List String
  layout : Layout := .line
  note : Option String := none

def indented (depth : Nat) (line : String) : String :=
  String.ofList (List.replicate (4 * depth) ' ') ++ line

def itemLines (depth : Nat) : List String → List String
  | [] => []
  | [p] => [indented depth p]
  | p :: ps => indented depth (p ++ ",") :: itemLines depth ps

namespace Method

def header (m : Method) : List String :=
  let ps := joined ", " m.parameters
  let ms := joined " " m.modifiers
  match m.layout with
  | .line => [s!"function {m.name}({ps}) {ms} \x7b"]
  | .stacked => s!"function {m.name}({ps})" :: m.modifiers.map (indented 2) ++ ["    \x7b"]
  | .spread =>
    s!"function {m.name}(" :: itemLines 2 m.parameters ++ [s!"    ) {ms} \x7b"]

/-- The lines of a function. All but the first are indented as inside a contract. -/
def lines (m : Method) : List String :=
  match m.note with
  | none => m.header ++ m.body.map (indented 2) ++ ["    \x7d"]
  | some note =>
    ("// " ++ note) :: (m.header.take 1).map (indented 1) ++ m.header.drop 1 ++
      m.body.map (indented 2) ++ ["    \x7d"]

/-- The text of a function, to stand behind the indentation of a contract's member. -/
def text (m : Method) : String :=
  joined "\n" m.lines

end Method

end Solwright
