import Solwright.Compilation
import Solwright.Interpretation
import Solwright.Json.Bytes
import Solwright.Json.Codes
import Solwright.Routes.Target

/-!
The service over HTTP: which paths there are, what their bodies have to hold, and which status tells
of which outcome.
-/

namespace Solwright.Routes

open Solwright.Schema Solwright.Session

/-- The body of a request: none, a text that is still to be read, or a value. -/
inductive Body
  | absent
  | raw (text : String)
  | value (v : Json)

inductive Content
  | json (v : Json)
  | text (s : String)

structure Response where
  status : Nat
  content : Content

mutual

/-- Whether a value can be sent: all its numbers are finite and all its texts well formed. -/
def isSendable : Json → Bool
  | .float x => x.isFinite
  | .illFormed _ => false
  | .arr vs => areSendable vs
  | .obj ms => haveSendable ms
  | _ => true

def areSendable : List Json → Bool
  | [] => true
  | v :: vs => isSendable v && areSendable vs

def haveSendable : List (RawText × Json) → Bool
  | [] => true
  | (key, v) :: ms => key.isFormed && isSendable v && haveSendable ms

end

/-- Whether a member of an object is kept out of responses. -/
def isHidden (key : RawText) : Bool :=
  match key.shown.toList with
  | '_' :: 's' :: 'a' :: _ => true
  | _ => false

mutual

/-- A value as it is sent, without what is kept out of responses. -/
def sent : Json → Json
  | .arr vs => .arr (sentItems vs)
  | .obj ms => .obj (sentMembers ms)
  | v => v

def sentItems : List Json → List Json
  | [] => []
  | v :: vs => sent v :: sentItems vs

def sentMembers : List (RawText × Json) → List (RawText × Json)
  | [] => []
  | (key, v) :: ms => if isHidden key then sentMembers ms else (key, sent v) :: sentMembers ms

end

def unexpected : Response :=
  ⟨500, .text "Internal Server Error"⟩

def respond (status : Nat) (v : Json) : Response :=
  if isSendable (sent v) then ⟨status, .json (sent v)⟩ else unexpected

def refuse (status : Nat) (message : RawText) : Response :=
  respond status (.obj [("detail", message.json)])

def unprocessable (problems : List RawText) : Response :=
  respond 422 (.obj [("success", .bool false), ("error", .str "Validation failed"),
    ("errors", .rawTexts problems)])

def detail (p : Problem) : Json :=
  .obj (("type", .str p.cause.kind) :: ("loc", .arr (.str "body" :: p.path.map Step.json)) ::
    ("msg", .str p.cause.message) :: ("input", p.given) ::
    if p.cause = .empty then [("ctx", .obj [("min_length", .int 1)])] else [])

def badBody (problems : List Problem) : Response :=
  respond 422 (.obj [("detail", .arr (problems.map detail))])

/-- The response to a body that cannot be taken for JSON at all. -/
def unparsed : Response :=
  refuse 400 "There was an error parsing the body"

def unreadable (f : Json.Fault) : Response :=
  match f.syntax? with
  | none => unparsed
  | some (what, place) =>
    respond 422 (.obj [("detail", .arr [.obj
      [("type", .str "json_invalid"), ("loc", .arr [.str "body", .int place]),
       ("msg", .str "JSON decode error"), ("input", .obj []),
       ("ctx", .obj [("error", .str what)])]])])

/-- A body text without the mark that may stand in front of it. -/
def withoutMark : RawText → RawText
  | .formed s => if s.toList.head? == some (Char.ofNat 0xFEFF) then String.ofList (s.toList.drop 1) else s
  | .illFormed ns => if ns.head? == some 0xFEFF then .illFormed (ns.drop 1) else .illFormed ns

def Body.read (limit : Nat) (b : Body) : Except Response (Option Json) :=
  match b with
  | .absent => .ok none
  | .value v => .ok (some v)
  | .raw text =>
    if text.isEmpty then .ok none else
    match Json.decoded? text with
    | none => .error unparsed
    | some s => (Json.readDecodedRaw limit (withoutMark s)).mapError unreadable |>.map some

def Body.check (limit : Nat) (b : Body) (record : List (RawText × Json) → Checked α) :
    Except Response α :=
  (b.read limit).bind fun
    | none => .error (badBody [⟨[], .absent, .null⟩])
    | some (.obj ms) => (record ms).mapError badBody
    | some v => .error (badBody [⟨[], .noFields, v⟩])

/-- What is asked for when a contract is to be generated. The texts are checked only when they are
made a request. -/
structure GenerateBody where
  family : Json
  contractName : Json
  symbol : Option Json
  features : List RawText
  parameters : List (RawText × Json)
  compile : Bool

def GenerateBody.ofMembers (ms : List (RawText × Json)) : Checked GenerateBody :=
  GenerateBody.mk <$> required (.plain "family") anyText ms
    <*> required Request.nameField anyText ms
    <*> optional (.plain "symbol") (nullable anyText) none ms
    <*> optional (.plain "features") (list text) [] ms
    <*> optional (.plain "parameters") object [] ms
    <*> optional (.plain "compile") switch false ms

def GenerateBody.request (b : GenerateBody) (family : Family) : Except Rejection Request :=
  Request.read (.obj
    [("family", .str family.name), ("contract_name", b.contractName),
     ("symbol", b.symbol.getD .null), ("features", .rawTexts b.features),
     ("parameters", .obj b.parameters)])

structure CompileBody where
  source : RawText
  contractName : RawText

def CompileBody.ofMembers (ms : List (RawText × Json)) : Checked CompileBody :=
  CompileBody.mk <$> required (.plain "source") text ms <*> required Request.nameField text ms

structure AnalyzeBody where
  prompt : RawText
  context : Option (List (RawText × Json))

def contextField : Field := ⟨"currentContext", "current_context"⟩

def AnalyzeBody.ofMembers (ms : List (RawText × Json)) : Checked AnalyzeBody :=
  AnalyzeBody.mk <$> required (.plain "prompt") text ms
    <*> optional contextField (nullable object) none ms

structure WriteBody where
  prompt : String
  context : Option (List (RawText × Json))
  compile : Bool

def WriteBody.ofMembers (ms : List (RawText × Json)) : Checked WriteBody :=
  WriteBody.mk <$> required (.plain "prompt") someText ms
    <*> optional (.plain "context") (nullable object) none ms
    <*> optional (.plain "compile") switch false ms

def objectOrNull : Option (List (RawText × Json)) → Json
  | some ms => .obj ms
  | none => .null

/-- What a compilation adds to a response, or the response that takes its place. -/
def compiled (work : Job Artifact) :
    StateM Session (Except Response (List (RawText × Json))) := do
  match ← work.run with
  | .ok a => return .ok a.report
  | .error (.failure (.rejected problems)) => return .error (unprocessable problems)
  | .error (.failure (.engineUnavailable reason)) => return .error (refuse 503 reason)
  | .error (.failure f@(.diagnosed _ _)) => return .ok f.report
  | .error (.failure f@(.contractNotFound _)) => return .ok f.report
  | .error .timedOut => return .error (refuse 504 "Compilation timed out")
  | .error _ => return .error unexpected

def withCompilation (response compilation : List (RawText × Json)) : Response :=
  let success := (compilation.lookup (.formed "success")).getD .null
  respond 200 (.obj (putMembers response [("success", success), ("compilation", .obj compilation)]))

def ofCompiled : Except Response (List (RawText × Json)) → Response
  | .ok ms => respond 200 (.obj ms)
  | .error r => r

def templates : Response :=
  respond 200 (.obj [("templates", .arr Template.catalogue),
    ("total", .int Template.catalogue.length)])

def requestProblems (r : Rejection) : List RawText :=
  r.problems.map fun p => .formed (p.place ++ ": " ++ p.cause.message)

def acceptedRequest (b : GenerateBody) : Except Response Request :=
  match Family.parse b.family with
  | .error f => .error (refuse 400 f.message)
  | .ok family => (b.request family).mapError fun r => unprocessable (requestProblems r)

def generate (b : GenerateBody) : StateM Session Response := do
  match acceptedRequest b with
  | .error r => return r
  | .ok request =>
    match ← (Session.generate request).run with
    | .error (.failure (.rejected problems)) => return unprocessable problems
    | .error _ => return unexpected
    | .ok c =>
      let response : List (RawText × Json) := [("success", .bool true), ("sourceCode", .str c.source),
        ("sourceName", (sourceName request.contractName.text).json)]
      if b.compile then
        match ← compiled (build request none) with
        | .ok compilation => return withCompilation response compilation
        | .error r => return r
      else return respond 200 (.obj response)

def compileSource (b : CompileBody) : StateM Session Response := do
  return ofCompiled (← compiled (compileChecked b.source b.contractName none))

def analyze (b : AnalyzeBody) : StateM Session Response := do
  let settings := (← get).settings
  let (s, p) ← interpret b.prompt settings.modelAvailable (.value (objectOrNull b.context)) none settings
  return respond 200 (.obj [("success", .bool true), ("analysis", s.json),
    ("source", .str p.name)])

def written (b : WriteBody) (c : WrittenContract) : StateM Session Response := do
  let problems := Source.problems c.code
  let validation : List (RawText × Json) :=
    [("validation", .obj [("valid", .bool problems.isEmpty), ("problems", .rawTexts problems)])]
  let response : List (RawText × Json) :=
    ("success", .bool true) :: (c.members ++ validation)
  if !b.compile then return respond 200 (.obj response)
  if !problems.isEmpty then
    return withCompilation response (Failure.rejected problems).report
  match ← compiled (Session.compileWritten c none) with
  | .ok compilation => return withCompilation response compilation
  | .error r => return r

def write (b : WriteBody) : StateM Session Response := do
  let settings := (← get).settings
  if !settings.modelAvailable then return refuse 503 "Google API key not configured"
  match ← (writeContract b.prompt (.value (objectOrNull b.context)) none settings).run with
  | .error (.failure f@(.notInterpreted _)) =>
    log .error ("Model contract generation failed: " ++ f.message)
    return refuse 502 f.message
  | .error _ => return unexpected
  | .ok c => written b c

def status : StateM Session Response := do
  match ← (availableVersions (.int 10)).run with
  | .error _ => return unexpected
  | .ok versions =>
    let s ← get
    return respond 200 (.obj [("version", s.settings.compilerVersion.json),
      ("ready", .bool s.isReady), ("availableVersions", .texts versions)])

def preload : StateM Session Response := do
  Session.preload
  let s ← get
  return respond 200 (.obj [("version", s.settings.compilerVersion.json),
    ("ready", .bool s.isReady)])

def checked (b : Body) (record : List (RawText × Json) → Checked α)
    (f : α → StateM Session Response) : StateM Session Response := do
  match b.check (← get).outside.limits.reading record with
  | .ok a => f a
  | .error r => return r

def paths : List (String × String) :=
  [("/contracts/templates", "GET"), ("/contracts/generate", "POST"),
   ("/contracts/compile", "POST"), ("/ai/analyze-contract", "POST"),
   ("/ai/generate-contract", "POST"), ("/contracts/compiler", "GET"),
   ("/contracts/compiler/preload", "POST")]

def pathOf? (path : List Char) : Option String :=
  let text := String.ofList (withoutEndLine path)
  if (paths.lookup text).isSome then some text else none

/-- Which of the paths that there are a target names. Slashes at the end of a path that is none of
them do not count. -/
def pathNamed? (target : String) : Option String :=
  let path := Target.named target
  (pathOf? path).or (pathOf? (withoutEndSlashes path))

def handleAt (path : String) (b : Body) : StateM Session Response :=
  match path with
  | "/contracts/templates" => return templates
  | "/contracts/generate" => checked b GenerateBody.ofMembers generate
  | "/contracts/compile" => checked b CompileBody.ofMembers compileSource
  | "/ai/analyze-contract" => checked b AnalyzeBody.ofMembers analyze
  | "/ai/generate-contract" => checked b WriteBody.ofMembers write
  | "/contracts/compiler" => status
  | _ => preload

/-- What is left of a response to a method: a request for the head alone gets no content. -/
def forMethod (method : String) (r : Response) : Response :=
  if method == "HEAD" then { r with content := .text "" } else r

/-- The response to a request. The case of its method does not matter. -/
def handle (method target : String) (b : Body) : StateM Session Response :=
  let method := Text.upper method
  match pathNamed? target with
  | none => return forMethod method (refuse 404 "Not Found")
  | some path =>
    if paths.lookup path != some method then
      return forMethod method (refuse 405 "Method Not Allowed")
    else handleAt path b

end Solwright.Routes
