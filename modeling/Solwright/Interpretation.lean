import Solwright.Prompt
import Solwright.Session
import Solwright.Suggestion.Keywords
import Solwright.Suggestion.Reply
import Solwright.Written.Reply

/-!
Asking a model, once for a suggestion and once for a whole contract. A suggestion can always be had:
where the model gives none, the keywords of the request do.
-/

namespace Solwright

open Solwright.Number Solwright.Session

inductive Provenance
  | model
  | heuristic
  deriving DecidableEq

def Provenance.name : Provenance → String
  | .model => "model"
  | .heuristic => "heuristic"

/-- What is known so far of a request: data, or what cannot be written as data, for a reason. -/
inductive Context
  | value (v : Json)
  | unwritable (reason : String)

/-- A context as data that can be written. An empty one is left out, so only others are limited in
how deep they are nested. -/
def Context.data (limit : Nat) : Context → Except Fault Json
  | .unwritable reason => .error (.crashed reason)
  | .value v =>
    if v.isTrue && limit < v.nesting then
      .error (.tooDeep "maximum recursion depth exceeded while encoding a JSON object")
    else .ok v

namespace Session

def newClient (key : RawText) : StateM Session Client := do
  note fun j => { j with keys := j.keys ++ [key] }
  return (← get).outside.client key

/-- The client that is passed, or else one with the key of the settings, if they have one. -/
def clientFor (passed : Option Client) (settings : Settings) : StateM Session (Option Client) := do
  match passed with
  | some c => return some c
  | none =>
    if settings.modelAvailable then return some (← newClient (settings.apiKey.getD ""))
    else return none

def textOfReply : ModelReply → Except Fault (Option String)
  | .text reply => .ok reply
  | .failed reason => .error (.crashed reason)

def nextReply : StateM Session (Arrival ModelReply) :=
  modifyGet fun s =>
    (s.outside.replies.next,
      { s with outside := { s.outside with replies := s.outside.replies.rest } })

def ask (q : Question) (timeout : Option Binary64) : Job (Option String) := do
  if isOver timeout then throw .timedOut
  note fun j => { j with questions := j.questions ++ [q] }
  Job.ofExcept (((← nextReply).within timeout).bind textOfReply)

def suggestionQuestion (settings : Settings) (prompt : RawText) (context : Json) : Question where
  model := settings.model
  contents := Prompt.suggestionQuestion prompt context
  temperature := .ofDecimal false 3 (-1)
  maxTokens := 500
  instruction := Prompt.suggestionInstruction

def contractQuestion (settings : Settings) (prompt : RawText) (context : Json) : Question where
  model := settings.model
  contents := Prompt.contractQuestion prompt context
  temperature := .ofDecimal false 7 (-1)
  maxTokens := 3000
  instruction := Prompt.contractInstruction

def modelSuggestion (settings : Settings) (prompt : RawText) (context : Context) :
    Job Suggestion := do
  let limits := (← get).outside.limits
  let known ← Job.ofExcept (context.data limits.writing)
  let reply ← ask (suggestionQuestion settings prompt known) settings.modelTimeout
  Job.ofExcept (Suggestion.ofReply limits.reading reply)

/-- A suggestion for a request, from a model if one can be asked and its reply can be used. To the
keywords half a pair is a character like any other. -/
def interpret (prompt : RawText) (available : Bool) (context : Context) (passed : Option Client)
    (settings : Settings) : StateM Session (Suggestion × Provenance) := do
  if !available then return (Keywords.suggest prompt.shown, .heuristic)
  match ← clientFor passed settings with
  | none => return (Keywords.suggest prompt.shown, .heuristic)
  | some _ =>
    match ← (modelSuggestion settings prompt context).run with
    | .ok s => return (s, .model)
    | .error f =>
      log .warning ("Model interpretation failed, using keyword analysis: " ++ f.message)
      return (Keywords.suggest prompt.shown, .heuristic)

def contractReply (settings : Settings) (prompt : RawText) (context : Context) :
    Job (Option String) := do
  let known ← Job.ofExcept (context.data (← get).outside.limits.writing)
  ask (contractQuestion settings prompt known) settings.modelTimeout

def writeContract (prompt : RawText) (context : Context) (passed : Option Client)
    (settings : Settings) : Job WrittenContract := do
  match ← clientFor passed settings with
  | none => throw (.failure (.notInterpreted "Google API key not configured"))
  | some _ =>
    let reply ← tryCatch (contractReply settings prompt context)
      fun f => throw (.failure (.notInterpreted ("Contract generation failed: " ++ f.message)))
    Job.ofExcept (WrittenContract.ofReply (← get).outside.limits.reading reply)

end Session

end Solwright
