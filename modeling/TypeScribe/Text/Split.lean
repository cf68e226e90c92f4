/-!
# Pieces of a text

A text cut at every occurrence of one character.
-/

namespace TypeScribe.Text

/-- The pieces of a text between occurrences of a character. There is always one piece more than
there are occurrences. -/
def piecesAt (mark : Char) : List Char → List (List Char)
  | [] => [[]]
  | c :: rest =>
    if c = mark then [] :: piecesAt mark rest
    else
      match piecesAt mark rest with
      | [] => [[c]]
      | piece :: more => (c :: piece) :: more

end TypeScribe.Text
