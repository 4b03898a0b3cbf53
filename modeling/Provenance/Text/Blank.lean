import Provenance.Text.Ranges

/-! # Blank characters

The characters with the Unicode property White_Space. Core's `Char.isWhitespace` knows
only four of them; `isBlank_of_isWhitespace` says that they are among these.
-/

namespace Provenance.Text

/-- The code points with the property White_Space. -/
def blanks : Ranges :=
  [(0x9, 0xD), (0x20, 0x20), (0x85, 0x85), (0xA0, 0xA0), (0x1680, 0x1680), (0x2000, 0x200A),
    (0x2028, 0x2029), (0x202F, 0x202F), (0x205F, 0x205F), (0x3000, 0x3000)]

/-- Whether the character is white space. -/
def isBlank (c : Char) : Bool := blanks.contains c

/-- How many blank characters the text begins with. -/
def leadingBlanks (text : List Char) : Nat := (text.takeWhile isBlank).length

/-- Whether the text holds nothing but blanks. -/
def allBlank (text : String) : Bool := text.toList.all isBlank

theorem isBlank_of_isWhitespace {c : Char} (h : c.isWhitespace = true) : isBlank c = true := by
  simp only [Char.isWhitespace, Bool.or_eq_true, decide_eq_true_eq] at h
  rcases h with ((rfl | rfl) | rfl) | rfl <;> decide

theorem leadingBlanks_le (text : List Char) : leadingBlanks text ≤ text.length :=
  (List.takeWhile_sublist isBlank).length_le

end Provenance.Text
