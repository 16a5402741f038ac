import Solwright.Fault
import Solwright.Text.Join
import Solwright.Text.Line

/-!
The fixed catalogue of library sources that a compilation may import: sources held in memory, then
files of a tree below a root. Nothing outside the known beginnings of paths is ever found, and no
path leads out of the root.
-/

namespace Solwright

open Solwright.Text

/-- A file tree without links: regular files by the segments of their absolute paths. -/
abbrev FileTree := List (List (List Char) × List Char)

/-- A catalogue of library sources. Folders that hold no file are listed by their places. -/
structure Catalog where
  root : Option (List (List Char)) := none
  files : FileTree := []
  folders : List (List (List Char)) := []
  sources : List (RawText × RawText) := []
  beginnings : List String := ["@openzeppelin/contracts/"]

namespace Catalog

/-- Takes a segment of an absolute path; segments are kept last first. -/
def descend (kept : List (List Char)) (segment : List Char) : List (List Char) :=
  if segment.isEmpty || segment == ['.'] then kept
  else if segment == ['.', '.'] then kept.drop 1
  else segment :: kept

/-- Where a path leads from a folder. An absolute path leads there from everywhere. -/
def locate (base : List (List Char)) (path : List Char) : List (List Char) :=
  let start := if path.head? == some '/' then [] else base.reverse
  ((splitAt '/' path).foldl descend start).reverse

def knows (c : Catalog) (path : RawText) : Bool :=
  c.beginnings.any fun b => (b.toList.map Char.toNat).isPrefixOf path.codes

def pathLimit : Nat := 4095

def segmentLimit : Nat := 255

def byteCount (s : List Char) : Nat :=
  (String.ofList s).utf8ByteSize

def pathBytes : List (List Char) → Nat
  | [] => 0
  | segment :: rest => byteCount segment + 1 + pathBytes rest

def isFolder (c : Catalog) (place : List (List Char)) : Bool :=
  (c.files.any fun f => place.isPrefixOf f.1 && place.length < f.1.length) ||
    c.folders.any (place.isPrefixOf ·)

/-- Whether the way to a place, from a folder that has been reached, comes to a folder in which the
next segment is too long to be looked for. -/
def meetsLongSegment (c : Catalog) (reached : List (List Char)) : List (List Char) → Bool
  | [] => false
  | segment :: rest =>
    c.isFolder reached &&
      (segmentLimit < byteCount segment || c.meetsLongSegment (reached ++ [segment]) rest)

/-- The file at a place. Whether there is one cannot be told of places that are too long. -/
def fileAt (c : Catalog) (place : List (List Char)) : Except Fault (Option (List Char)) :=
  if pathLimit < pathBytes place || c.meetsLongSegment [] place then .error .pathTooLong
  else .ok (c.files.lookup place)

def fileBelow (c : Catalog) (root : List (List Char)) (path : List Char) :
    Except Fault (Option (List Char)) :=
  let place := locate root path
  if root.isPrefixOf place && root.length < place.length then c.fileAt place else .ok none

/-- Half a pair that stands for a byte of a path. No other half has a place in a path. -/
def isByteHalf (n : Nat) : Bool :=
  0xDC80 ≤ n && n < 0xDD00

/-- The characters of a path. A half that stands for a byte takes one byte, as the null character
does, which is in no path either. -/
def pathChars : RawText → List Char
  | .formed s => s.toList
  | .illFormed ns => ns.map fun n => if isByteHalf n then Char.ofNat 0 else shownCode n

def badPath? : RawText → Option String
  | .formed s => if s.toList.contains (Char.ofNat 0) then some "embedded null byte" else none
  | .illFormed ns =>
    if ns.any fun n => isHalf n && !isByteHalf n then some "surrogates not allowed"
    else if ns.contains 0 then some "embedded null byte"
    else none

/-- The file below the root that a path names. All names of files are well formed. -/
def file (c : Catalog) (path : RawText) : Except Fault (Option (List Char)) :=
  match c.root, badPath? path with
  | none, _ => .ok none
  | some _, some reason => .error (.badValue reason)
  | some root, none =>
    (c.fileBelow root (pathChars path)).map fun found => if path.isFormed then found else none

def find (c : Catalog) (path : RawText) : Except Fault (Option RawText) :=
  if !c.knows path then .ok none else
  match c.sources.lookup path with
  | some text => .ok (some text)
  | none =>
    (c.file path).map fun found => found.map fun text => .formed (String.ofList (universalLines text))

def find? (c : Catalog) (path : RawText) : Option RawText :=
  match c.find path with
  | .ok found => found
  | .error _ => none

def fault? (c : Catalog) (path : RawText) : Option Fault :=
  match c.find path with
  | .ok _ => none
  | .error f => some f

end Catalog

end Solwright
