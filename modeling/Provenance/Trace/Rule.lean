import Provenance.Text.Quoted
import Provenance.Trace.Basic

/-! # Rules

A rule looks at a record and an index into its value, and says which operand the
character came from and where in it, or why it goes no further. There are six rules to
begin with, none of which makes the index larger; others can be added. A table says which
rule applies to which kind of operation.
-/

namespace Provenance

/-- What a rule says of a character. -/
inductive Outcome where
  | next (step : Step)
  | terminal (reason : Terminal)
  deriving DecidableEq, Repr, Inhabited

/-- What is said of a character of a record's value. -/
def Rule : Type := Record → Nat → Outcome

namespace Outcome

/-- The rule does not know this form of the operation. -/
def unsupported (detail : String) : Outcome := .terminal (.unsupported detail)

/-- An operand that the rule needs is not there. -/
def missing (operand : String) : Outcome :=
  unsupported ("missing operand `" ++ operand ++ "`")

/-- The character comes from the given place of an operand. -/
def descend (name : String) (operand : Operand RecordId) (index : Nat) : Outcome :=
  match operand.tracking with
  | some id => .next ⟨id, index⟩
  | none => .terminal (.untracked name)

/-- The character comes from one text followed by another. -/
def concat (leftName : String) (left : Operand RecordId) (rightName : String)
    (right : Operand RecordId) (index : Nat) : Outcome :=
  match left.text?, right.text? with
  | some text, some _ =>
    if index < text.length then descend leftName left index
    else descend rightName right (index - text.length)
  | _, _ => unsupported "non-string operands"

/-- What follows if an operand of the given group is there. -/
def via (operands : Operands RecordId) (name : String) (index : Nat) : Outcome :=
  match operands.get? name with
  | some operand => descend name operand index
  | none => missing name

end Outcome

namespace Rule

open Outcome

/-- A literal is where its characters come from. -/
def literal : Rule := fun _ _ => .terminal .literal

/-- A name stands for its value. -/
def identifier : Rule := fun record index => via record.args "value" index

/-- A property access stands for the value of the property. -/
def memberExpression : Rule := fun record index => via record.extraArgs "propertyValue" index

/-- Only a sum of two texts is known. -/
def binaryExpression : Rule := fun record index =>
  if record.operator = some "+" then
    match record.args.get? "left", record.args.get? "right" with
    | some left, some right => concat "left" left "right" right index
    | _, _ => missing "left/right"
  else unsupported ("operator " ++ Text.quoted (record.operator.getD ""))

/-- A plain assignment passes its argument on; an appending one adds it to the current value,
    unless what was assigned in the end was recorded. -/
def assignmentExpression : Rule := fun record index =>
  if record.operator = some "=" then via record.args "argument" index
  else if record.operator = some "+=" then
    match record.runtimeArgs.get? "assignment" with
    | some assigned => descend "assignment" assigned index
    | none =>
      match record.args.get? "currentValue", record.args.get? "argument" with
      | some current, some argument => concat "currentValue" current "argument" argument index
      | _, _ => missing "currentValue/argument"
  else unsupported ("assignment operator " ++ Text.quoted (record.operator.getD ""))

/-- A declaration is the name of the style, a colon and a blank, and the value. -/
def styleAssignment : Rule := fun record index =>
  match record.args.get? "styleName", record.args.get? "styleValue" with
  | some name, some value =>
    match name.text? with
    | none => unsupported "non-string style name"
    | some text =>
      if index < text.length then descend "styleName" name index
      else if index < text.length + 2 then .terminal .synthesized
      else descend "styleValue" value (index - text.length - 2)
  | _, _ => missing "styleName/styleValue"

/-- The rules that there are to begin with. -/
def provided : List Rule :=
  [literal, identifier, memberExpression, binaryExpression, assignmentExpression, styleAssignment]

end Rule

/-- Which rule applies to which kind of operation. -/
structure RuleTable where
  entries : List (Kind × Rule) := []
  deriving Inhabited

namespace RuleTable

/-- The rule for a kind. -/
def get? (table : RuleTable) (kind : Kind) : Option Rule := table.entries.lookup kind

/-- Enters a rule for a kind, in the place of the one it may have had. -/
def register (table : RuleTable) (kind : Kind) (rule : Rule) : RuleTable :=
  ⟨(kind, rule) :: table.entries.filter (·.1 ≠ kind)⟩

/-- The number of kinds with a rule. -/
def size (table : RuleTable) : Nat := table.entries.length

/-- What the rule for the record's kind says; nothing if there is none. -/
def apply (table : RuleTable) (record : Record) (index : Nat) : Option Outcome :=
  (table.get? record.kind).map fun rule => rule record index

/-- The rules for the kinds that can be passed through. -/
def standard : RuleTable :=
  ⟨[(.stringLiteral, .literal), (.numericLiteral, .literal), (.templateLiteral, .literal),
    (.identifier, .identifier), (.binaryExpression, .binaryExpression),
    (.assignmentExpression, .assignmentExpression), (.memberExpression, .memberExpression),
    (.styleAssignment, .styleAssignment)]⟩

/-- The table with the tags of its kinds, sorted. -/
def display (table : RuleTable) : String :=
  let tags := (table.entries.map fun entry => entry.1.tag).mergeSort
  "RuleTable \x7b kinds: [" ++ ", ".intercalate (tags.map Text.quoted) ++ "] \x7d"

end RuleTable

end Provenance
