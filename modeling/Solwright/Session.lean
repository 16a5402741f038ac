import Solwright.Compiler.Document
import Solwright.Compiler.Loader
import Solwright.Compiler.Output
import Solwright.Library.Closure
import Solwright.Number.Binary64
import Solwright.Settings.Basic

/-!
A session: one set of settings, one catalogue and one compiler that is loaded when it is first
needed. How everything outside will turn out is given with the session, in the order in which it
will be asked for, and all that was asked is kept in a journal.
-/

namespace Solwright

open Solwright.Number

structure Engine where
  version : RawText
  binary : String
  deriving DecidableEq

inductive Installation
  | done
  | failed (reason : String)

/-- The outcome of running a compiler: a document, a refusal in words and perhaps diagnostics, or a
crash. -/
inductive Run
  | output (document : Json)
  | refused (message : String) (diagnostics : Json)
  | crashed (reason : String)

structure Client where
  key : RawText

inductive ModelReply
  | text (reply : Option String)
  | failed (reason : String)

structure Question where
  model : RawText
  contents : RawText
  temperature : Binary64
  maxTokens : Nat
  instruction : String

/-- An outcome that takes its time. One that is late comes after every limit of time. -/
structure Arrival (α : Type) where
  outcome : α
  late : Bool

def Arrival.within (timeout : Option Binary64) (a : Arrival α) : Except Fault α :=
  if a.late && timeout.isSome then .error .timedOut else .ok a.outcome

/-- Outcomes in the order in which they come. There is always a next one. -/
abbrev Series (α : Type) := Nat → α

def Series.next (xs : Series α) : α := xs 0

def Series.rest (xs : Series α) : Series α := fun n => xs (n + 1)

/-- How far an interpreter goes: how many arrays and objects inside one another it reads and writes,
and how many bytes it makes room for. -/
structure Limits where
  reading : Nat
  writing : Nat
  room : Nat

/-- What lies outside: the compilers that are installed and their programs, how everything that may
be asked for will turn out, and the limits of the interpreter. -/
structure Outside where
  installed : List RawText
  program : RawText → String
  installations : Series Installation
  runs : Series (Arrival Run)
  client : RawText → Client
  replies : Series (Arrival ModelReply)
  versions : Except String (List String)
  limits : Limits

structure Journal where
  installs : List RawText := []
  documents : List Document := []
  questions : List Question := []
  keys : List RawText := []
  log : List LogRecord := []

/-- The state of a session. -/
structure Session where
  settings : Settings
  catalog : Catalog := {}
  loader : Loader Engine := {}
  outside : Outside
  journal : Journal := {}

abbrev Job := ExceptT Fault (StateM Session)

def Job.ofExcept (e : Except Fault α) : Job α :=
  ExceptT.mk (pure e)

namespace Session

def note (f : Journal → Journal) : StateM Session Unit :=
  modify fun s => { s with journal := f s.journal }

def log (level : LogLevel) (message : RawText) : StateM Session Unit :=
  note fun j => { j with log := j.log ++ [⟨level, message⟩] }

def logAll (records : List LogRecord) : StateM Session Unit :=
  note fun j => { j with log := j.log ++ records }

def engineOf (s : Session) (version : RawText) : Engine :=
  ⟨version, s.outside.program version⟩

def install (version : RawText) : StateM Session Installation := do
  note fun j => { j with installs := j.installs ++ [version] }
  modifyGet fun s =>
    let outcomes := s.outside.installations
    (outcomes.next, { s with outside := { s.outside with installations := outcomes.rest } })

/-- Loads the compiler of a version, which is installed first if it is not yet. -/
def load (version : RawText) : StateM Session (Load Engine) := do
  let s ← get
  if s.outside.installed.contains version then return .ready (s.engineOf version)
  match ← install version with
  | .done => return .ready (s.engineOf version)
  | .failed reason => return .failed reason

def endLoad : StateM Session Unit := do
  match (← get).loader.running? with
  | none => return
  | some i =>
    let outcome ← load (← get).settings.compilerVersion
    modify fun s => { s with loader := s.loader.finish i outcome }

def enter (caller : Nat) : StateM Session (Option (Delivery Engine)) :=
  modifyGet fun s => let (l, d) := s.loader.enter caller; (d, { s with loader := l })

/-- A caller that waits goes on, if it can. A failed load is logged by every caller that learns of
it. -/
def resume (caller : Nat) : StateM Session (Option (Delivery Engine)) := do
  let d ← modifyGet fun s => let (l, d) := s.loader.resume caller; (d, { s with loader := l })
  match d with
  | some (.unavailable reason) =>
    let version := (← get).settings.compilerVersion
    log .warning ("Failed to load solc " ++ version ++ ": " ++ reason)
  | _ => pure ()
  return d

def cancel (caller : Nat) : StateM Session (Option (Delivery Engine)) :=
  modifyGet fun s => let (l, d) := s.loader.cancel caller; (d, { s with loader := l })

def delivered : Option (Delivery Engine) → Except Fault Engine
  | some (.handle e) => .ok e
  | some (.unavailable reason) =>
    .error (.failure (.engineUnavailable s!"Failed to load Solidity compiler: {reason}"))
  | some .cancelled | none => .error .cancelled

def engine : Job Engine := ExceptT.mk do
  match ← enter 0 with
  | some d => return delivered (some d)
  | none =>
    endLoad
    return delivered (← resume 0)

def isReady (s : Session) : Bool :=
  s.loader.cached.isSome

def preload : StateM Session Unit := do
  match ← engine.run with
  | .ok _ => return
  | .error f => log .error ("Solc preload failed: " ++ f.message)

/-- A caller enters while others do; it goes on at once where it need not wait. -/
def enterAmong (caller : Nat) : StateM Session (Option (Delivery Engine)) := do
  match ← enter caller with
  | some d => return some d
  | none => resume caller

/-- What several callers come to that ask together, when some of them give up before the load ends:
whether the compiler was there before, and what each caller was given. -/
def gather (callers : Nat) (givingUp : List Nat) :
    StateM Session (Bool × List (Except Fault Engine)) := do
  let all := List.range callers
  let first ← all.mapM enterAmong
  let ready := (← get).isReady
  let cancelled ← givingUp.mapM fun i => return (i, ← cancel i)
  endLoad
  let later ← all.mapM resume
  let results := all.map fun i =>
    delivered (((first.getD i none).or ((cancelled.lookup i).getD none)).or (later.getD i none))
  return (ready, results)

/-- The document that a run leaves. Diagnostics of a refusal are handed back as output. -/
def documentOf : Run → Except Fault Json
  | .output document => .ok document
  | .crashed reason => .error (.crashed reason)
  | .refused message diagnostics =>
    if diagnostics.isTrue then .ok (.obj [("errors", diagnostics)])
    else .ok (.obj [("errors", .arr
      [.obj [("severity", .str "error"), ("message", .str message)]])])

def nextRun : StateM Session (Arrival Run) :=
  modifyGet fun s =>
    (s.outside.runs.next, { s with outside := { s.outside with runs := s.outside.runs.rest } })

def submit (d : Document) (timeout : Option Binary64) : Job Json := ExceptT.mk do
  note fun j => { j with documents := j.documents ++ [d] }
  return ((← nextRun).within timeout).bind documentOf

/-- A limit of time that is over before anything begins. -/
def isOver (timeout : Option Binary64) : Bool :=
  timeout.any Binary64.notPositive

def fallbackVersions : List String :=
  ["0.8.20", "0.8.19", "0.8.18", "0.8.17"]

/-- The first items of a list, or for a negative count all but the last ones. -/
def firstItems (count : Int) (xs : List α) : List α :=
  if 0 ≤ count then xs.take count.toNat else xs.take (xs.length - count.natAbs)

def limited (limit : Json) (xs : List α) : Except Fault (List α) :=
  match limit with
  | .null => .ok xs
  | .int n => .ok (firstItems n xs)
  | .bool b => .ok (firstItems (if b then 1 else 0) xs)
  | _ => .error .wrongKind

/-- The versions of the compiler that can be installed, as many as a value says; it is not looked at
where the list cannot be had. -/
def availableVersions (limit : Json) : Job (List String) := do
  match (← get).outside.versions with
  | .ok versions => Job.ofExcept (limited limit versions)
  | .error reason =>
    log .warning s!"Could not load solc version list: {reason}"
    return fallbackVersions

end Session

end Solwright
