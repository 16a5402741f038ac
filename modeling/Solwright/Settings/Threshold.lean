import Solwright.Fault
import Solwright.Settings.Basic
import Solwright.Text.Quoted

/-!
The threshold below which nothing is logged, by its name. A name that is not known stands for the
usual threshold, but a few words are taken by other things and are refused.
-/

namespace Solwright.Threshold

open Solwright.Text

def named : List (String × Nat) :=
  [("CRITICAL", 50), ("FATAL", 50), ("ERROR", 40), ("WARN", 30), ("WARNING", 30), ("INFO", 20),
   ("DEBUG", 10), ("NOTSET", 0)]

/-- The layout of a record, which also goes by a name. -/
def layout : String := "%(levelname)s:%(name)s:%(message)s"

def ofName (name : String) : Except Fault Nat :=
  let name := upper name
  if name == "BASIC_FORMAT" then
    .error (.badValue ("Unknown level: " ++ String.ofList (quoted layout.toList)))
  else if name == "_STYLES" then .error .wrongKind
  else .ok ((named.lookup name).getD 20)

def ofRaw : RawText → Except Fault Nat
  | .formed name => ofName name
  | .illFormed _ => .ok 20

/-- The threshold that is asked for by name, or else that of the settings, which are only then
needed. -/
def choose (asked : Json) (settings : Except Rejection Settings) : Except Fault Nat :=
  if !asked.isTrue then (settings.mapError .rejection).bind fun s => ofRaw s.logLevel
  else
    match asked with
    | .str name => ofName name
    | .illFormed codes => ofRaw (.illFormed codes)
    | _ => .error .noSuchMember

end Solwright.Threshold
