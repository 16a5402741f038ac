import Solwright.Library.Catalog
import Solwright.Source.Import
import Solwright.Source.Path

/-!
The source units that a set of units imports, directly or through others, as far as they can be
found. Every name is looked up at most once, whether or not it is found.
-/

namespace Solwright

open Solwright.Source Solwright.Text

/-- A search for imported units: the units whose imports are still to be followed, last first; the
names that need no look-up any more; and the units found, in order. -/
structure Search where
  pending : List (RawText × RawText)
  seen : List RawText
  found : List (RawText × RawText)

namespace Search

def start (units : List (RawText × RawText)) : Search :=
  ⟨units.reverse, units.map (·.1), []⟩

def follow (find : RawText → Option RawText) (importer : RawText) (s : Search) (path : RawText) :
    Search :=
  let name := unitOf importer path
  if s.seen.contains name then s else
  match find name with
  | some text => ⟨(name, text) :: s.pending, s.seen ++ [name], s.found ++ [(name, text)]⟩
  | none => { s with seen := s.seen ++ [name] }

def step (find : RawText → Option RawText) (s : Search) : Search :=
  match s.pending with
  | [] => s
  | (name, text) :: rest => (importsOf text).foldl (follow find name) { s with pending := rest }

/-- Takes steps until no unit is left. A search through units without end has no end. -/
def finish (find : RawText → Option RawText) (s : Search) : Search := Id.run do
  let mut s := s
  while !s.pending.isEmpty do
    s := s.step find
  return s

end Search

namespace Catalog

def search (c : Catalog) (units : List (RawText × RawText)) : Search :=
  (Search.start units).finish c.find?

def lookups (c : Catalog) (units : List (RawText × RawText)) : List RawText :=
  (c.search units).seen.drop units.length

/-- The units that some units import, unless a name cannot be looked up; the first such name
counts. -/
def imported (c : Catalog) (units : List (RawText × RawText)) :
    Except Fault (List (RawText × RawText)) :=
  match (c.lookups units).findSome? c.fault? with
  | some f => .error f
  | none => .ok (c.search units).found

end Catalog

end Solwright
