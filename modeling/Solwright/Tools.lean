import Solwright.Compilation
import Solwright.Deployment.Payload
import Solwright.Interpretation

/-!
The tools that an assistant is given. Each answers with an object that tells success from error; the
failures of making a contract are part of the answer.
-/

namespace Solwright.Tools

open Solwright.Number Solwright.Session Solwright.Text

structure Order where
  family : Json
  contractName : Json
  symbol : Json
  features : Json
  parameters : Json

def success (data : List (RawText × Json)) : Json :=
  .obj [("status", .str "success"), ("data", .obj data)]

def error (message : RawText) : Json :=
  .obj [("status", .str "error"), ("error_message", message.json)]

def failed (f : Failure) (before : List (RawText × Json)) : Json :=
  .obj [("status", .str "error"), ("error_message", f.message.json),
    ("data", .obj (putMembers before f.report))]

def parametersRead (s : List Char) : Except Json.Fault Json → Except Fault (List (RawText × Json))
  | .ok (.obj ms) => .ok ms
  | .ok _ => .error (.badValue "parameters_json must be a JSON object")
  | .error f => .error (.ofJson .badValue s f)

/-- The parameters that a JSON text holds. An empty text holds none. -/
def parametersOf (limit : Nat) (v : Json) : Except Fault (List (RawText × Json)) :=
  match v with
  | .str s =>
    if s.isEmpty then .ok [] else parametersRead s.toList (Json.read limit s.toList)
  | .illFormed codes => parametersRead (shownCodes codes) (Json.readCodes limit codes)
  | v => if v.isTrue then .error .wrongKind else .ok []

def orNull (v : Json) : Json :=
  if v.isTrue then v else .null

def Order.request (limit : Nat) (o : Order) : Except Fault Request :=
  o.features.elementsOrNone.bind fun features =>
  (parametersOf limit o.parameters).bind fun parameters =>
  (Request.read (.obj
    [("family", o.family), ("contract_name", o.contractName), ("symbol", orNull o.symbol),
     ("features", .arr features), ("parameters", .obj parameters)])).mapError .rejection

def templates : Json :=
  success [("templates", .arr Template.catalogue), ("total_count", .int Template.catalogue.length)]

def template (family : Json) : Json :=
  match Family.parse family with
  | .error f => error f.message
  | .ok f =>
    let t := Template.of f
    success
      [("family", .str f.name), ("template_code", .str t.text),
       ("features", .texts (t.features.map Feature.name)),
       ("required_dependencies", .texts ["@openzeppelin/contracts"])]

/-- The answer to a fault, where it is one that is told. -/
def told (heading : String) : Fault → Except Fault Json
  | .failure f => .ok (error (heading ++ f.message))
  | f =>
    match f.valueMessage? with
    | some reason => .ok (error (heading ++ reason))
    | none => .error f

def generated (c : Composition) : Json :=
  success
    [("generated_code", .str c.source),
     ("source_name", (sourceName c.request.contractName.text).json),
     ("applied_features", .rawTexts c.request.features)]

def accepted (o : Order) : Job Request := do
  Job.ofExcept (o.request (← get).outside.limits.reading)

def generateSource (o : Order) : Job Json :=
  tryCatch (do return generated (← Session.generate (← accepted o)))
    fun f => Job.ofExcept (told "Generation failed: " f)

def sourceText (v : Json) : Except Fault RawText :=
  match v with
  | .str s => .ok s
  | .illFormed codes => .ok (.illFormed codes)
  | .obj _ => .error .noSuchMember
  | _ => .error .wrongKind

def validate (source : Json) : Job Json := do
  let problems := Source.problems (← Job.ofExcept (sourceText source)).shown
  return success [("valid", .bool problems.isEmpty), ("problems", .rawTexts problems)]

/-- The answer to a fault of a compilation: a failure is reported, and other faults are told under a
heading or go on. -/
def compileFault (heading : Option String) (before : List (RawText × Json)) : Fault → Job Json
  | .failure f => return failed f before
  | f =>
    match heading, f.valueMessage? with
    | some h, some reason => return error (h ++ reason)
    | _, _ => throw f

def invalidRequest : String := "Invalid request: "

def compileSource (source contractName : Json) : Job Json :=
  tryCatch
    (do
      let text ← Job.ofExcept (sourceText source)
      return success (← compileChecked text contractName.display none).report)
    (compileFault none [])

/-- The text of a request; what is no text counts as an empty one. -/
def promptText : Json → RawText
  | .str s => s
  | .illFormed codes => .illFormed codes
  | _ => ""

def analyze (prompt : Json) : Job Json := do
  let settings := (← get).settings
  let (s, p) ← interpret (promptText prompt) settings.modelAvailable (.value .null) none settings
  return success [("suggestion", s.json), ("source", .str p.name)]

def buildContract (o : Order) : Job Json :=
  tryCatch
    (do
      let r ← accepted o
      return success (← build r none).report)
    (compileFault (some invalidRequest) [])

def prepareDeployment (o : Order) : Job Json :=
  tryCatch
    (do
      let r ← accepted o
      let a ← build r none
      let room := (← get).outside.limits.room
      return success (← Job.ofExcept (Deployment.summary room a r (.int 20) .null)))
    (compileFault (some invalidRequest) [])

/-- The text of a reply, which has to be one where there is anything in its place. -/
def replyText (v : Json) : Except Fault RawText :=
  match v with
  | .str s => .ok s
  | .illFormed codes => .ok (.illFormed codes)
  | v => if v.isTrue then .error .noSuchMember else .ok ""

def compileWritten (text : Json) : Job Json := do
  let limit := (← get).outside.limits.reading
  match (replyText text).bind (WrittenContract.ofText limit) with
  | .error (.failure f) => return error f.message
  | .error f => throw f
  | .ok c =>
    tryCatch
      (do
        let a ← Session.compileWritten c none
        return success (putMember (.formed "compilation") (.obj a.report) c.members))
      (compileFault none c.members)

end Solwright.Tools
