/-! # Character references

A reference is an ampersand, one or more letters, digits or number signs, and a semicolon.
None is looked for beyond a window of thirty characters.
-/

namespace Provenance.Markup

/-- No reference is longer than this. -/
def referenceWindow : Nat := 30

/-- The characters between the ampersand and the semicolon of a reference. -/
def isReferenceChar (c : Char) : Bool := c.isAlphanum || c = '#'

/-- The length of the reference that a text begins with. -/
def referenceLength? (text : List Char) : Option Nat :=
  match text.take referenceWindow with
  | '&' :: rest =>
    let body := (rest.takeWhile isReferenceChar).length
    if 0 < body ∧ rest[body]? = some ';' then some (body + 2) else none
  | _ => none

end Provenance.Markup
