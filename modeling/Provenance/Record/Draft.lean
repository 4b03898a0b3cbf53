import Provenance.Record.Basic

/-! # Building drafts

Drafts of the two commonest operations, and the steps by which any other is put together.
-/

namespace Provenance.Draft

/-- A text that the program itself holds. -/
def stringLiteral (text : String) : Draft where
  kind := .stringLiteral
  args := Operands.empty.insert "value" { value := .str text }
  result := .str text

/-- One operand followed by another; the result is known if both are texts. -/
def concat (left right : Operand DraftReference) : Draft where
  kind := .binaryExpression
  staticArgs := { operator := some "+" }
  args := (Operands.empty.insert "left" left).insert "right" right
  result := match left.text?, right.text? with
    | some l, some r => .str (l ++ r)
    | _, _ => .null

/-- The draft with an argument put in. -/
def withArg (draft : Draft) (name : String) (operand : Operand DraftReference) : Draft :=
  { draft with args := draft.args.insert name operand }

/-- The draft with an extra argument put in. -/
def withExtraArg (draft : Draft) (name : String) (operand : Operand DraftReference) : Draft :=
  { draft with extraArgs := draft.extraArgs.insert name operand }

/-- The draft with a runtime argument put in. -/
def withRuntimeArg (draft : Draft) (name : String) (operand : Operand DraftReference) : Draft :=
  { draft with runtimeArgs := draft.runtimeArgs.insert name operand }

/-- The draft with an operator. -/
def withOperator (draft : Draft) (operator : String) : Draft :=
  { draft with staticArgs.operator := some operator }

/-- The draft with an assignment target. -/
def withTarget (draft : Draft) (target : AssignmentTarget) : Draft :=
  { draft with staticArgs.target := some target }

/-- The draft with a source location. -/
def withLocation (draft : Draft) (location : SourceLocation) : Draft :=
  { draft with staticArgs.location := some location }

/-- The draft with a result. -/
def withResult (draft : Draft) (result : Json) : Draft := { draft with result }

end Provenance.Draft
