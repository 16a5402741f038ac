/-!
Membership in a table of code point ranges.
-/

namespace Solwright.Text

def inRange (n : Nat) (r : Nat × Nat) : Bool :=
  r.1 ≤ n && n ≤ r.2

end Solwright.Text
