import Solwright.Json.Basic
import Solwright.Text.Blank
import Solwright.Text.Line
import Solwright.Text.Scan

/-!
Files of environment variables: one binding a line, with an optional `export`, values bare or in
either kind of quotes, comments after a hash, and references to other variables in braces.
-/

namespace Solwright.Dotenv

open Solwright.Text

def isSpace (c : Char) : Bool :=
  isBlank c && c != '\n'

def nextLine (s : List Char) : List Char :=
  (s.dropWhile (· != '\n')).drop 1

def lineEnd? (s : List Char) : Option (List Char) :=
  match s.dropWhile isSpace with
  | [] => some []
  | c :: r => if c == '#' || c == '\n' then some (nextLine (c :: r)) else none

/-- The text up to the closing quote, and what follows it. A backslash takes the next character with
it, so that neither closes the value. -/
def quotedValue? (quote : Char) : List Char → Option (List Char × List Char)
  | [] => none
  | ['\\'] => none
  | '\\' :: c :: s => (quotedValue? quote s).map fun (v, r) => ('\\' :: c :: v, r)
  | c :: s =>
    if c == quote then some ([], s) else (quotedValue? quote s).map fun (v, r) => (c :: v, r)

def escapes : List (Char × Char) :=
  [('\\', '\\'), ('\'', '\''), ('"', '"'), ('a', Char.ofNat 7), ('b', Char.ofNat 8),
   ('f', Char.ofNat 12), ('n', '\n'), ('r', '\r'), ('t', '\t'), ('v', Char.ofNat 11)]

def singleEscapes : List (Char × Char) :=
  [('\\', '\\'), ('\'', '\'')]

def unescaped (table : List (Char × Char)) : List Char → List Char
  | [] => []
  | '\\' :: c :: s =>
    match table.lookup c with
    | some d => d :: unescaped table s
    | none => '\\' :: unescaped table (c :: s)
  | c :: s => c :: unescaped table s

def withoutComment : List Char → List Char
  | [] => []
  | c :: s =>
    if isBlank c && (s.dropWhile isBlank).head? == some '#' then [] else c :: withoutComment s

def bareValue (s : List Char) : List Char × List Char :=
  (trim (withoutComment (s.takeWhile (· != '\n'))), s.dropWhile (· != '\n'))

/-- The value after an equals sign, and what follows. White space before it does not belong to it,
but makes a hash behind it a comment. -/
def value? (s : List Char) : Option (List Char × List Char) :=
  match s.dropWhile isSpace with
  | '\'' :: s => (quotedValue? '\'' s).map fun (v, r) => (unescaped singleEscapes v, r)
  | '"' :: s => (quotedValue? '"' s).map fun (v, r) => (unescaped escapes v, r)
  | _ => some (bareValue s)

def afterExport (s : List Char) : List Char :=
  ((after? "export".toList s).bind (afterSome? isSpace)).getD s

def key? (s : List Char) : Option (Option (List Char) × List Char) :=
  match s with
  | '#' :: _ => some (none, s)
  | '\'' :: r =>
    let key := r.takeWhile (· != '\'')
    match key, r.dropWhile (· != '\'') with
    | _ :: _, _ :: rest => some (some key, rest)
    | _, _ => none
  | s =>
    let inKey := fun c => !(c == '=' || c == '#' || isBlank c)
    let key := s.takeWhile inKey
    if key.isEmpty then none else some (some key, s.dropWhile inKey)

/-- A binding without its line end: the key and value, if any, and what follows; or else what follows
the part that could be read. -/
def pair (s : List Char) :
    Except (List Char) (Option (List Char) × Option (List Char) × List Char) :=
  match key? (afterExport s) with
  | none => .error (afterExport s)
  | some (key, s) =>
    match s.dropWhile isSpace with
    | '=' :: s =>
      match value? s with
      | some (v, s) => .ok (key, some v, s)
      | none => .error (s.dropWhile isSpace)
    | s => .ok (key, none, s)

/-- The bindings of a text, read line by line up to a number of lines. A line that is no binding is
passed over. -/
def bindingsUpTo : Nat → List Char → List (List Char × Option (List Char))
  | 0, _ => []
  | n + 1, s =>
    let s := s.dropWhile isBlank
    if s.isEmpty then [] else
    match pair s with
    | .error rest => bindingsUpTo n (nextLine rest)
    | .ok (key, value, rest) =>
      match lineEnd? rest, key with
      | some rest, some key => (key, value) :: bindingsUpTo n rest
      | some rest, none => bindingsUpTo n rest
      | none, _ => bindingsUpTo n (nextLine rest)

def reference? (s : List Char) : Option (List Char × List Char × List Char) :=
  let inName := fun c => c != '\x7d' && c != ':'
  let name := s.takeWhile inName
  match s.dropWhile inName with
  | '\x7d' :: rest => some (name, [], rest)
  | ':' :: '-' :: s =>
    match s.dropWhile (· != '\x7d') with
    | _ :: rest => some (name, s.takeWhile (· != '\x7d'), rest)
    | [] => none
  | _ => none

/-- A value with every reference replaced by what a variable holds. The first argument counts the
characters that the last reference still takes. -/
def expandedFrom (env : List (String × Option String)) : Nat → List Char → List Char
  | _, [] => []
  | n + 1, _ :: s => expandedFrom env n s
  | 0, c :: s =>
    let found := if c == '$' then (after? ['\x7b'] s).bind reference? else none
    match found with
    | some (name, default, rest) =>
      (match env.lookup (String.ofList name) with
        | some held => (held.getD "").toList
        | none => default) ++ expandedFrom env (s.length - rest.length) s
    | none => c :: expandedFrom env 0 s

def bind (outer : List (String × Option String)) (held : List (String × Option String))
    (b : List Char × Option (List Char)) : List (String × Option String) :=
  let value := b.2.map fun v => String.ofList (expandedFrom (putMembers outer held) 0 v)
  putMember (String.ofList b.1) value held

/-- The variables that a text names, given those of the environment; a name without an equals sign
holds nothing. -/
def read (environment : List (String × String)) (text : String) : List (String × Option String) :=
  let outer := environment.map fun v => (v.1, some v.2)
  let lines := universalLines text.toList
  (bindingsUpTo (lines.length + 1) lines).foldl (bind outer) []

end Solwright.Dotenv
