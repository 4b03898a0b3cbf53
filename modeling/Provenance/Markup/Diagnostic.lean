/-! # Mapping diagnostics

Mapping never fails. Where the assigned string and the serialized markup cannot be brought
together it reports that, and goes on without a correction.
-/

namespace Provenance.Markup

/-- How the assigned string and the serialized markup differ. -/
inductive Mismatch where
  /-- The walk did not end where the content ends. -/
  | endsElsewhere (reached : Int) (contentEnd : Nat)
  | noBlankBefore (attributeName : String)
  | valueWithoutEquals (attributeName : String)
  | valuePastEnd (attributeName : String)
  | childrenOfUnclosed (tag : String)
  deriving DecidableEq, Repr

/-- The wording of a mismatch. -/
def Mismatch.message : Mismatch → String
  | endsElsewhere reached contentEnd =>
    "mapping ended at assigned index " ++ toString reached ++ ", content ends at "
      ++ toString contentEnd
  | noBlankBefore name => "no whitespace before attribute `" ++ name ++ "`"
  | valueWithoutEquals name => "attribute `" ++ name ++ "` has a value but no `=`"
  | valuePastEnd name => "attribute `" ++ name ++ "` value runs past the end"
  | childrenOfUnclosed tag => "<" ++ tag ++ "> has no closing tag but has children"

/-- A mismatch, and where both sides stood when it was found. -/
structure Diagnostic where
  serialized : Nat
  assigned : Int
  mismatch : Mismatch
  deriving DecidableEq, Repr

end Provenance.Markup
