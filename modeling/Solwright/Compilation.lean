import Solwright.Session
import Solwright.Written.Basic

/-!
Compiling in a session. Every way to the compiler but the first checks the structure of the source
before anything else happens.
-/

namespace Solwright

open Solwright.Number Solwright.Session

/-- The contract of a request, if its source has the structure of one. -/
def Request.generate (r : Request) : Except Failure Composition :=
  let c := r.compose
  let problems := Source.problems c.source
  if problems.isEmpty then .ok c else .error (.rejected problems)

structure CompileOptions where
  optimize : Option Bool := none
  runs : Option Int := none
  timeout : Option Binary64 := none
  strict : Option Bool := none

namespace Session

/-- Compiles a source. The units that it imports are added as far as the catalogue has them. The limit
of time covers the search for them and the run of the compiler, but not its load. -/
def compile (source contractName : RawText) (options : CompileOptions) : Job Artifact := do
  let _ ← engine
  let s ← get
  let timeout := options.timeout.or s.settings.compileTimeout
  if isOver timeout then throw .timedOut
  let d := Document.ofSource contractName source (options.optimize.getD s.settings.optimize)
    (options.runs.getD s.settings.optimizerRuns) s.settings.machine
  let imported ← Job.ofExcept (s.catalog.imported d.units)
  let output ← submit { d with units := d.units ++ imported } timeout
  let (outcome, notes) := Output.readJson output (sourceName contractName) contractName
    (options.strict.getD s.settings.strictMatch) source.shown
  logAll notes
  Job.ofExcept outcome

/-- Compiles a source that has the structure of one. Half a pair means nothing to the structure. -/
def compileChecked (source contractName : RawText) (timeout : Option Binary64) : Job Artifact := do
  let problems := Source.problems source.shown
  if problems.isEmpty then compile source contractName { timeout := timeout }
  else throw (.failure (.rejected problems))

def generate (r : Request) : Job Composition := do
  logAll (r.compose.conflicts.map fun c => ⟨.warning, c.message⟩)
  match r.generate with
  | .ok c => return c
  | .error f =>
    let problems := String.ofList (Json.arr f.details).quotedForm
    log .error s!"Generated source for {r.contractName.text} failed validation: {problems}"
    throw (.failure f)

def build (r : Request) (timeout : Option Binary64) : Job Artifact := do
  let c ← generate r
  compile c.source r.contractName.text { timeout := timeout }

def compiledName (c : WrittenContract) : RawText :=
  ((c.name.filter (!·.isEmpty)).or ((Source.firstDeclared? c.code).map .formed)).getD "Contract"

def compileWritten (c : WrittenContract) (timeout : Option Binary64) : Job Artifact :=
  compileChecked c.code (compiledName c) timeout

end Session

end Solwright
