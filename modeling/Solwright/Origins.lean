import Solwright.Text.Blank
import Solwright.Text.Join

/-!
The list of origins that a service accepts requests from.
-/

namespace Solwright.Origins

open Solwright.Text

/-- The origins of a list with commas. Without a list every origin is accepted. -/
def read (value : Option String) : List String :=
  let text := value.getD ""
  if text.isEmpty then ["*"]
  else
    (((splitAt ',' text.toList).map trim).filter (!·.isEmpty)).map String.ofList

end Solwright.Origins
