import Solwright.Json.Basic
import Solwright.Text.Join

/-!
Checking records that come from outside. A check gives a value or every problem of the data, in the
order of the fields; a problem says where it is, what it is and which value it was found at.
-/

namespace Solwright

open Solwright.Text

inductive Step
  | member (key : String)
  | item (index : Int)
  deriving DecidableEq

def Step.text : Step → String
  | .member key => key
  | .item i => toString i

def Step.json : Step → Json
  | .member key => .str key
  | .item i => .int i

inductive Cause
  | absent
  | notText
  | notUnicode
  | notLike (pattern : String)
  | notAmong (words : String)
  | notList
  | notObject
  | notRecord (name : String)
  | noFields
  | empty
  | notSwitch
  | unclearSwitch
  | notWhole
  | unclearWhole
  | fractional
  | notFinite
  | tooLong
  | negative
  | notNumber
  | unclearNumber
  | frozen
  | refused (reason : String)
  deriving DecidableEq

def Cause.kind : Cause → String
  | .absent => "missing"
  | .notText => "string_type"
  | .notUnicode => "string_unicode"
  | .notLike _ => "string_pattern_mismatch"
  | .notAmong _ => "enum"
  | .notList => "list_type"
  | .notObject => "dict_type"
  | .notRecord _ => "model_type"
  | .noFields => "model_attributes_type"
  | .empty => "string_too_short"
  | .notSwitch => "bool_type"
  | .unclearSwitch => "bool_parsing"
  | .notWhole => "int_type"
  | .unclearWhole => "int_parsing"
  | .fractional => "int_from_float"
  | .notFinite => "finite_number"
  | .tooLong => "int_parsing_size"
  | .negative => "greater_than_equal"
  | .notNumber => "float_type"
  | .unclearNumber => "float_parsing"
  | .frozen => "frozen_instance"
  | .refused _ => "value_error"

def Cause.message : Cause → String
  | .absent => "Field required"
  | .notText => "Input should be a valid string"
  | .notUnicode => "Input should be a valid string, unable to parse raw data as a unicode string"
  | .notLike pattern => s!"String should match pattern '{pattern}'"
  | .notAmong words => s!"Input should be {words}"
  | .notList => "Input should be a valid list"
  | .notObject => "Input should be a valid dictionary"
  | .notRecord name => s!"Input should be a valid dictionary or instance of {name}"
  | .noFields => "Input should be a valid dictionary or object to extract fields from"
  | .empty => "String should have at least 1 character"
  | .notSwitch => "Input should be a valid boolean"
  | .unclearSwitch => "Input should be a valid boolean, unable to interpret input"
  | .notWhole => "Input should be a valid integer"
  | .unclearWhole => "Input should be a valid integer, unable to parse string as an integer"
  | .fractional => "Input should be a valid integer, got a number with a fractional part"
  | .notFinite => "Input should be a finite number"
  | .tooLong => "Unable to parse input string as an integer, exceeded maximum size"
  | .negative => "Input should be greater than or equal to 0"
  | .notNumber => "Input should be a valid number"
  | .unclearNumber => "Input should be a valid number, unable to parse string as a number"
  | .frozen => "Instance is frozen"
  | .refused reason => "Value error, " ++ reason

structure Problem where
  path : List Step
  cause : Cause
  given : Json

def Problem.place (p : Problem) : String :=
  joined "." (p.path.map Step.text)

structure Rejection where
  record : String
  problems : List Problem

def Rejection.message (r : Rejection) : String :=
  let n := r.problems.length
  let errors := if n = 1 then "error" else "errors"
  let title := s!"{n} validation {errors} for {r.record}"
  joined "\n" (title :: r.problems.map fun p =>
    (if p.path.isEmpty then "" else p.place ++ "\n") ++
      s!"  {p.cause.message} [type={p.cause.kind}]")

/-- The outcome of a check: a value, or all problems. -/
def Checked (α : Type) :=
  Except (List Problem) α

namespace Checked

def accept (a : α) : Checked α :=
  .ok a

def refuse (cause : Cause) (given : Json) : Checked α :=
  .error [⟨[], cause, given⟩]

/-- Two checks, both of which are made. -/
def ap (f : Checked (α → β)) (a : Unit → Checked α) : Checked β :=
  match f, a () with
  | .ok f, .ok a => .ok (f a)
  | .ok _, .error ps => .error ps
  | .error ps, .ok _ => .error ps
  | .error ps, .error qs => .error (ps ++ qs)

instance : Applicative Checked where
  pure := accept
  seq := ap

def andThen (a : Checked α) (f : α → Checked β) : Checked β :=
  match a with
  | .ok a => f a
  | .error ps => .error ps

def within (step : Step) : Checked α → Checked α
  | .ok a => .ok a
  | .error ps => .error (ps.map fun p => { p with path := step :: p.path })

def named (record : String) : Checked α → Except Rejection α
  | .ok a => .ok a
  | .error ps => .error ⟨record, ps⟩

end Checked

namespace Schema

/-- A text. It need not be well formed. -/
def text : Json → Checked RawText
  | .str s => .accept s
  | .illFormed codes => .accept (.illFormed codes)
  | v => .refuse .notText v

def anyText (v : Json) : Checked Json :=
  (text v).andThen fun _ => .accept v

/-- A text that is looked into, which has to be well formed. -/
def wellFormedText : Json → Checked String
  | .str s => .accept s
  | .illFormed codes => .refuse .notUnicode (.illFormed codes)
  | v => .refuse .notText v

def someText (v : Json) : Checked String :=
  (wellFormedText v).andThen fun s => if s.isEmpty then .refuse .empty v else .accept s

def nullable (check : Json → Checked α) : Json → Checked (Option α)
  | .null => .accept none
  | v => some <$> check v

def items (check : Json → Checked α) : Nat → List Json → Checked (List α)
  | _, [] => .accept []
  | i, v :: vs => List.cons <$> (check v).within (.item i) <*> items check (i + 1) vs

def list (check : Json → Checked α) : Json → Checked (List α)
  | .arr vs => items check 0 vs
  | v => .refuse .notList v

def object : Json → Checked (List (RawText × Json))
  | .obj ms => .accept ms
  | v => .refuse .notObject v

def switchWords : List (String × Bool) :=
  [("0", false), ("off", false), ("f", false), ("false", false), ("n", false), ("no", false),
   ("1", true), ("on", true), ("t", true), ("true", true), ("y", true), ("yes", true)]

/-- A whole number that fits into a signed word. -/
def isWord (n : Int) : Bool :=
  let top : Int := Nat.pow 2 63
  n < top && -top ≤ n

/-- A switch: a truth value, one or zero, or a word for yes or no in any case. -/
def switch (v : Json) : Checked Bool :=
  match v with
  | .bool b => .accept b
  | .str s =>
    match switchWords.lookup (String.ofList (s.toList.map Char.toLower)) with
    | some b => .accept b
    | none => .refuse .unclearSwitch v
  | .illFormed _ => .refuse .notUnicode v
  | .int n => if n = 0 then .accept false else if n = 1 then .accept true
    else .refuse (if isWord n then .unclearSwitch else .notSwitch) v
  | .float x =>
    match x.toInt? with
    | some n => if n = 0 then .accept false else if n = 1 then .accept true
      else .refuse (if n.natAbs < Nat.pow 2 63 then .unclearSwitch else .notSwitch) v
    | none => .refuse .notSwitch v
  | _ => .refuse .notSwitch v

/-- A field of a record: the name it has in data, and the name it has elsewhere. -/
structure Field where
  label : String
  name : String

def Field.plain (name : String) : Field :=
  ⟨name, name⟩

/-- The value of a field under either of its names, and the name it was found under. -/
def Field.find? (f : Field) (ms : List (RawText × Json)) : Option (String × Json) :=
  match ms.lookup (.formed f.label) with
  | some v => some (f.label, v)
  | none => (ms.lookup (.formed f.name)).map (f.name, ·)

def required (f : Field) (check : Json → Checked α) (ms : List (RawText × Json)) : Checked α :=
  match f.find? ms with
  | some (key, v) => (check v).within (.member key)
  | none => .error [⟨[.member f.label], .absent, .obj ms⟩]

def optional (f : Field) (check : Json → Checked α) (default : α) (ms : List (RawText × Json)) :
    Checked α :=
  match f.find? ms with
  | some (key, v) => (check v).within (.member key)
  | none => .accept default

end Schema

end Solwright
