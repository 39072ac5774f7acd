/-
# Pieces of a text

A text is cut into the pieces between the occurrences of a character. There is
one piece more than there are occurrences.

Key definitions: `pieces`.
-/

namespace GrammarSync
namespace Text

/-- The pieces between the occurrences of a character. -/
def pieces (sep : Char) : List Char → List (List Char)
  | [] => [[]]
  | c :: rest =>
    if c = sep then [] :: pieces sep rest
    else match pieces sep rest with
      | [] => [[c]]
      | piece :: others => (c :: piece) :: others

end Text
end GrammarSync
