import Solwright.Text.Join
import Solwright.Text.Marked

/-!
Names of source units as paths. A path that begins with a dot segment is relative to the unit that
imports it; all others name a unit as they stand.
-/

namespace Solwright.Source

open Solwright.Text

/-- Takes a segment of a path. Empty and single-dot segments do nothing; a double-dot segment takes
back the last segment where there is one, and does nothing at the root. The segments are kept last
first. -/
def enter (rooted : Bool) (kept : List (List Char)) (segment : List Char) : List (List Char) :=
  if segment.isEmpty || segment == ['.'] then kept
  else if segment == ['.', '.'] then
    match kept with
    | [] => if rooted then [] else [segment]
    | last :: rest => if last == ['.', '.'] then segment :: kept else rest
  else segment :: kept

def normalSegments (rooted : Bool) (path : List Char) : List (List Char) :=
  ((splitAt '/' path).foldl (enter rooted) []).reverse

/-- How many slashes stay at the head of a path: exactly two stay two, and three or more are one. -/
def leadingSlashes (path : List Char) : Nat :=
  let n := (path.takeWhile (· == '/')).length
  if n ≤ 2 then n else 1

/-- A path without superfluous segments. An empty path is a dot. -/
def normal (path : List Char) : List Char :=
  let n := leadingSlashes path
  let result := List.replicate n '/' ++ joinWith ['/'] (normalSegments (n != 0) path)
  if result.isEmpty then ['.'] else result

/-- The folder of a path: what stands before the last slash, less the slashes at its end unless it
has nothing else. -/
def folder (path : List Char) : List Char :=
  let head := (path.reverse.dropWhile (· != '/'))
  let bare := head.dropWhile (· == '/')
  (if bare.isEmpty then head else bare).reverse

def inside (folder path : List Char) : List Char :=
  if folder.isEmpty || folder.getLast? == some '/' then folder ++ path
  else folder ++ '/' :: path

def isRelative (path : List Char) : Bool :=
  "./".toList.isPrefixOf path || "../".toList.isPrefixOf path

def resolve (importer path : List Char) : List Char :=
  if isRelative path then normal (inside (folder importer) path) else path

def unitName (importer path : String) : String :=
  String.ofList (resolve importer.toList path.toList)

def unitOf : RawText → RawText → RawText
  | .formed importer, .formed path => unitName importer path
  | importer, path =>
    if isRelative (marked path.codes) then
      .ofCodes (unmarked (resolve (marked importer.codes) (marked path.codes)))
    else path

end Solwright.Source
