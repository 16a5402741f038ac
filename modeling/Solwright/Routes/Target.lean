import Solwright.Text.Hex
import Solwright.Text.Join

/-!
What a request names: the path of a target, without what else a target may hold, with its segments
followed and its escapes read. A target that is no address of its own is taken below the service.
-/

namespace Solwright.Routes

open Solwright.Text

/-- A target cut into its parts. The scheme is that of an address of its own. -/
structure Target where
  scheme : Option (List Char)
  authority : Option (List Char)
  path : List Char

namespace Target

def inScheme (c : Char) : Bool :=
  c.isAlphanum || c == '+' || c == '.' || c == '-'

/-- A scheme in front of a text, and what follows its colon. A colon may stand for itself. -/
def takeScheme (s : List Char) : Option (List Char) × List Char :=
  let word := s.takeWhile inScheme
  match s.dropWhile inScheme with
  | ':' :: rest => if word.head?.all Char.isAlpha then (some word, rest) else (none, s)
  | _ => (none, s)

def takeAuthority (s : List Char) : Option (List Char) × List Char :=
  match s with
  | '/' :: '/' :: rest => (some (rest.takeWhile (· != '/')), rest.dropWhile (· != '/'))
  | s => (none, s)

def ofText (s : List Char) : Target :=
  let (scheme, rest) := takeScheme (s.takeWhile fun c => c != '?' && c != '#')
  let (authority, path) := takeAuthority rest
  ⟨scheme, authority, path⟩

def isThere (part : Option (List Char)) : Bool :=
  part.any (!·.isEmpty)

/-- The path of a target from the root of the service: an address of its own has it, and any other
target is put below the root. -/
def absolutePath (t : Target) : List Char :=
  if isThere t.scheme && isThere t.authority then t.path
  else '/' :: t.path.dropWhile (· == '/')

/-- Takes a segment of a path; segments are kept last first. The empty one in front stays. -/
def follow (kept : List (List Char)) (segment : List Char) : List (List Char) :=
  if segment == ['.'] then kept
  else if segment == ['.', '.'] then if kept == [[]] then kept else kept.drop 1
  else segment :: kept

def followed (path : List Char) : List Char :=
  joinWith ['/'] ((splitAt '/' path).foldl follow []).reverse

/-- A text with its escapes of bytes read. What is outside ASCII is in no path that there is, so a
byte may stand for itself. -/
def unescaped : List Char → List Char
  | '%' :: h :: l :: s =>
    match hexDigit? h, hexDigit? l with
    | some high, some low => Char.ofNat (16 * high + low) :: unescaped s
    | _, _ => '%' :: unescaped (h :: l :: s)
  | c :: s => c :: unescaped s
  | [] => []

/-- The path that a target names. Escapes are read twice on the way. -/
def named (s : String) : List Char :=
  unescaped (unescaped (followed (absolutePath (ofText s.toList))))

end Target

def withoutEndSlashes (path : List Char) : List Char :=
  (path.reverse.dropWhile (· == '/')).reverse

def withoutEndLine (path : List Char) : List Char :=
  match path.reverse with
  | '\n' :: r => r.reverse
  | _ => path

end Solwright.Routes
