/-!
Cutting text at a separator and putting parts together with one.
-/

namespace Solwright.Text

def splitAt (sep : Char) : List Char → List (List Char)
  | [] => [[]]
  | c :: s =>
    if c == sep then [] :: splitAt sep s
    else
      match splitAt sep s with
      | [] => [[c]]
      | p :: ps => (c :: p) :: ps

def joinWith (sep : List Char) : List (List Char) → List Char
  | [] => []
  | [p] => p
  | p :: ps => p ++ sep ++ joinWith sep ps

def joined (sep : String) (ss : List String) : String :=
  String.intercalate sep ss

end Solwright.Text
