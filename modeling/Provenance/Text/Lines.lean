/-! # Lines of text

Every line ends with a newline character, except that the last one need not.
-/

namespace Provenance.Text

/-- The lines of a text, without the characters that end them. -/
def lines : List Char → List (List Char)
  | [] => []
  | '\n' :: rest => [] :: lines rest
  | c :: rest =>
    match lines rest with
    | [] => [[c]]
    | first :: others => (c :: first) :: others

end Provenance.Text
