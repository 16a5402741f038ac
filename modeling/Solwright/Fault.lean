import Solwright.Failure
import Solwright.Json.Reader
import Solwright.Schema

/-!
All the ways in which an operation can end without a result.
-/

namespace Solwright

inductive EncodingFault
  | badType (reason : String)
  | noCodec (reason : String)
  | unreadableType
  | unsupportedType (reason : String)
  | wrongKind
  | outOfRange

/-- Why an operation has no result. A value may be of the wrong kind for what is done with it, or
lack a member that values of its kind do not have. -/
inductive Fault
  | failure (f : Failure)
  | rejection (r : Rejection)
  | badValue (reason : String)
  | wrongKind
  | noSuchMember
  | missingKey
  | tooLarge
  | outOfMemory
  | tooDeep (reason : String)
  | pathTooLong
  | badDecimal
  | decimalOverflow
  | encoding (f : EncodingFault)
  | timedOut
  | cancelled
  | crashed (reason : String)

namespace Fault

/-- A fault in reading JSON: limits of reading are faults of their own, and the syntax is worded by
what was to be read. -/
def ofJson (syntaxFault : String → Fault) (s : List Char) (f : Json.Fault) : Fault :=
  match f with
  | .nesting _ => .tooDeep (f.message s)
  | .longNumeral _ => .badValue (f.message s)
  | _ => syntaxFault (f.message s)

/-- The wording of a fault as a caller sees it that passes it on. -/
def message : Fault → RawText
  | .failure f => f.message
  | .rejection r => r.message
  | .badValue reason => reason
  | .tooDeep reason => reason
  | .crashed reason => reason
  | _ => ""

def valueMessage? : Fault → Option String
  | .rejection r => some r.message
  | .badValue reason => some reason
  | .encoding (.badType reason) => some reason
  | .encoding (.noCodec reason) => some reason
  | .encoding (.unsupportedType reason) => some reason
  | _ => none

end Fault

namespace Json

/-- The value under a key of a value that has to be an object; null where there is none. -/
def member (v : Json) (key : RawText) : Except Solwright.Fault Json :=
  match v with
  | .obj ms => .ok ((ms.lookup key).getD .null)
  | _ => .error .noSuchMember

def elements (v : Json) : Except Solwright.Fault (List Json) :=
  match v.elements? with
  | some vs => .ok vs
  | none => .error .wrongKind

/-- The elements of a value, none where it does not count as yes. -/
def elementsOrNone (v : Json) : Except Solwright.Fault (List Json) :=
  if v.isTrue then v.elements else .ok []

end Json

end Solwright
