/-! # Kinds of operations

The kinds that a trace can pass through have names of their own. Every other kind is kept
as the tag it was given, so that records of unknown kinds survive unchanged.
-/

namespace Provenance

/-- What a recorded operation did. -/
inductive Kind where
  | stringLiteral
  | numericLiteral
  | templateLiteral
  | identifier
  | binaryExpression
  | assignmentExpression
  | memberExpression
  | callExpression
  | styleAssignment
  /-- A kind known by its tag only. -/
  | other (tag : String)
  deriving DecidableEq, Repr, Inhabited

namespace Kind

/-- The tag that a kind is written as. -/
def tag : Kind → String
  | stringLiteral => "string-literal"
  | numericLiteral => "numeric-literal"
  | templateLiteral => "template-literal"
  | identifier => "identifier"
  | binaryExpression => "binary-expression"
  | assignmentExpression => "assignment-expression"
  | memberExpression => "member-expression"
  | callExpression => "call-expression"
  | styleAssignment => "style-assignment"
  | other tag => tag

/-- The second spelling of a tag, in which it may also be given. -/
def shortTag : Kind → String
  | stringLiteral => "stringLiteral"
  | numericLiteral => "numericLiteral"
  | templateLiteral => "templateLiteral"
  | identifier => "identifier"
  | binaryExpression => "binaryExpression"
  | assignmentExpression => "assignmentExpression"
  | memberExpression => "memberExpression"
  | callExpression => "callExpression"
  | styleAssignment => "styleAssignment"
  | other tag => tag

/-- The kinds that have a name of their own. -/
def known : List Kind :=
  [stringLiteral, numericLiteral, templateLiteral, identifier, binaryExpression,
    assignmentExpression, memberExpression, callExpression, styleAssignment]

/-- The kind of a tag, in either spelling. -/
def ofTag (text : String) : Kind :=
  (known.find? fun kind => kind.tag == text || kind.shortTag == text).getD (other text)

/-- Whether the kind has a name of its own. A question of callers: rules are found by the kind
    itself. -/
def isKnown : Kind → Bool
  | other _ => false
  | _ => true

end Kind

end Provenance
