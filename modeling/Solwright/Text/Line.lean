/-!
Line ends. Text from files is read with one kind of them, whichever it was written with.
-/

namespace Solwright.Text

/-- Text with every line end written as a single line feed. -/
def universalLines : List Char → List Char
  | [] => []
  | '\r' :: '\n' :: s => '\n' :: universalLines s
  | '\r' :: s => '\n' :: universalLines s
  | c :: s => c :: universalLines s

end Solwright.Text
