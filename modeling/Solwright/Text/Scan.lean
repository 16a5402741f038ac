/-!
Scanning text with a recogniser that is tried at every place from left to right. A recogniser is
told the character before the place; where it takes text, the scan goes on after what it took.
-/

namespace Solwright.Text

def firstMatch (f : Option Char → List Char → Option α) (before : Option Char) :
    List Char → Option α
  | [] => f before []
  | c :: s =>
    match f before (c :: s) with
    | some a => some a
    | none => firstMatch f (some c) s

/-- The answers of a recogniser that also gives the text after what it takes, without overlap. The
first argument counts the characters that the last answer still takes. -/
def matchesFrom (f : Option Char → List Char → Option (α × List Char)) :
    Nat → Option Char → List Char → List α
  | _, _, [] => []
  | n + 1, _, c :: s => matchesFrom f n (some c) s
  | 0, before, c :: s =>
    match f before (c :: s) with
    | some (a, rest) => a :: matchesFrom f (s.length - rest.length) (some c) s
    | none => matchesFrom f 0 (some c) s

def allMatches (f : Option Char → List Char → Option (α × List Char)) (s : List Char) : List α :=
  matchesFrom f 0 none s

def atLineStart (before : Option Char) : Bool :=
  before.all (· == '\n')

def afterSome? (p : Char → Bool) : List Char → Option (List Char)
  | [] => none
  | c :: s => if p c then some (s.dropWhile p) else none

def after? : List Char → List Char → Option (List Char)
  | [], s => some s
  | _ :: _, [] => none
  | w :: ws, c :: s => if w == c then after? ws s else none

def contains (w : List Char) : List Char → Bool
  | [] => w.isEmpty
  | c :: s => w.isPrefixOf (c :: s) || contains w s

/-- Replaces a word at every place where it stands, from left to right. The first argument counts
the characters of the word that are still to be dropped. -/
def replaceFrom (w new : List Char) : Nat → List Char → List Char
  | _, [] => []
  | n + 1, _ :: s => replaceFrom w new n s
  | 0, c :: s =>
    if w.isPrefixOf (c :: s) then new ++ replaceFrom w new (w.length - 1) s
    else c :: replaceFrom w new 0 s

def replaceAll (w new s : List Char) : List Char :=
  replaceFrom w new 0 s

/-- Drops what a recogniser takes at every place, from left to right. The first argument counts the
characters that the last answer still takes. -/
def dropMatchesFrom (f : List Char → Option (List Char)) : Nat → List Char → List Char
  | _, [] => []
  | n + 1, _ :: s => dropMatchesFrom f n s
  | 0, c :: s =>
    match f (c :: s) with
    | some rest => dropMatchesFrom f (s.length - rest.length) s
    | none => c :: dropMatchesFrom f 0 s

def dropMatches (f : List Char → Option (List Char)) (s : List Char) : List Char :=
  dropMatchesFrom f 0 s

end Solwright.Text
