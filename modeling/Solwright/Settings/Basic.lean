import Solwright.Schema.Number
import Solwright.Settings.Dotenv
import Solwright.Text.Case
import Solwright.Text.Upper

/-!
Settings. Each is taken from the first place that has it: what the caller passes, the environment,
the file of environment variables, and the default. Names are told apart without regard to case.
-/

namespace Solwright

open Solwright.Number Solwright.Text

structure Settings where
  compilerVersion : RawText
  machine : RawText
  optimize : Bool
  optimizerRuns : Int
  libraryRoot : Option RawText
  strictMatch : Bool
  compileTimeout : Option Binary64
  apiKey : Option RawText
  model : RawText
  modelTimeout : Option Binary64
  logLevel : RawText

namespace Settings

open Schema

def modelAvailable (s : Settings) : Bool :=
  s.apiKey.any (!·.isEmpty)

def libraryField : Field := ⟨"OPENZEPPELIN_PATH", "library_root"⟩

def modelField : Field := ⟨"CONTRACT_MODEL", "model"⟩

def fields : List Field :=
  [.plain "solc_version", .plain "evm_version", .plain "optimizer_enabled",
   .plain "optimizer_runs", libraryField, .plain "strict_contract_match",
   .plain "compile_timeout", .plain "google_api_key", modelField, .plain "model_timeout",
   .plain "log_level"]

def lowered (name : String) : String :=
  String.ofList (lower name.toList)

def spells (key : RawText) (name : String) : Bool :=
  match key with
  | .formed s => lowered s == lowered name
  | .illFormed _ => false

/-- The value passed under a name: under the very name, or else the first under another spelling of
it. -/
def passedAs? (name : String) (passed : List (RawText × Json)) : Option Json :=
  (passed.lookup (.formed name)).or ((passed.find? fun v => spells v.1 name).map (·.2))

def passed? (f : Field) (passed : List (RawText × Json)) : Option Json :=
  (passedAs? f.label passed).or (passedAs? f.name passed)

/-- Variables by their names in lower case, the last of a name winning. -/
def byLoweredName (env : List (String × Option String)) : List (String × Option String) :=
  putMembers [] (env.map fun v => (lowered v.1, v.2))

/-- The value of the first of some groups of variables that has one under a name. -/
def heldAs? (name : String) (groups : List (List (String × Option String))) : Option Json :=
  (groups.findSome? fun env => ((byLoweredName env).lookup (lowered name)).join).map .str

/-- The members that settings are made of, from all places. A variable under the name that a field
has in data comes before one under its other name, wherever either is. -/
def gather (passed : List (RawText × Json)) (environment file : List (String × Option String)) :
    List (RawText × Json) :=
  let groups := [environment, file]
  fields.filterMap fun f =>
    ((passed? f passed).or (heldAs? f.label groups) |>.or (heldAs? f.name groups)).map (.formed f.label, ·)

def presentText (v : Json) : Checked (Option RawText) :=
  (fun s => s.filter (!·.isEmpty)) <$> nullable text v

def capitals : RawText → RawText
  | .formed s => upper s
  | .illFormed ns =>
    .illFormed (ns.flatMap fun n =>
      if isHalf n then [n] else (capital (Char.ofNat n)).map Char.toNat)

def ofMembers (ms : List (RawText × Json)) : Checked Settings :=
  Settings.mk <$> optional (.plain "solc_version") text "0.8.20" ms
    <*> optional (.plain "evm_version") text "shanghai" ms
    <*> optional (.plain "optimizer_enabled") switch true ms
    <*> optional (.plain "optimizer_runs") natural 200 ms
    <*> optional libraryField presentText none ms
    <*> optional (.plain "strict_contract_match") switch false ms
    <*> optional (.plain "compile_timeout") (nullable number) (some (.ofDecimal false 60 0)) ms
    <*> optional (.plain "google_api_key") presentText none ms
    <*> optional modelField text "gemini-2.0-flash" ms
    <*> optional (.plain "model_timeout") (nullable number) (some (.ofDecimal false 30 0)) ms
    <*> optional (.plain "log_level") (fun v => capitals <$> text v) "INFO" ms

def recordName : String := "Settings"

def load (passed : List (RawText × Json)) (environment : List (String × String))
    (file : Option String) : Except Rejection Settings :=
  let bound := match file with
    | some text => Dotenv.read environment text
    | none => []
  let outer := environment.map fun v => (v.1, some v.2)
  (ofMembers (gather passed outer bound)).named recordName

/-- What assigning to a field of settings leads to: settings do not change, so every name but a
private one is refused. -/
def assign (field : String) (v : Json) : Option Rejection :=
  if field.startsWith "_" then none
  else some ⟨recordName, [⟨[.member field], .frozen, v⟩]⟩

end Settings

end Solwright
