/-! # Ranges of code points

A character class is a table of inclusive ranges of code points.
-/

namespace Provenance.Text

/-- A class of characters as inclusive ranges of code points. -/
abbrev Ranges := List (Nat × Nat)

/-- Whether some range of the class holds the character. -/
def Ranges.contains (ranges : Ranges) (c : Char) : Bool :=
  ranges.any fun range => range.1 ≤ c.toNat && c.toNat ≤ range.2

end Provenance.Text
