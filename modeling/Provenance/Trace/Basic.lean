import Provenance.Record.Basic

/-! # Traces

A step names a character: a record and an index into the record's value. A trace is the
list of steps from a character back towards where it came from, and why it ends there.
-/

namespace Provenance

/-- A character of the value of a record. -/
structure Step where
  id : RecordId
  charIndex : Nat
  deriving DecidableEq, Repr, Inhabited

/-- The step as the record and the index. -/
def Step.display (step : Step) : String :=
  String.ofList (step.id.display.toList ++ '@' :: Nat.toDigits 10 step.charIndex)

/-- Why a rule goes no further back. -/
inductive Terminal where
  /-- The record introduced the value itself. -/
  | literal
  /-- The operation made the character; it comes from no operand. -/
  | synthesized
  /-- Nothing is recorded of where the operand came from. -/
  | untracked (operand : String)
  /-- The rule does not know this form of the operation. -/
  | unsupported (detail : String)
  deriving DecidableEq, Repr, Inhabited

/-- Why a trace ends. -/
inductive TraceEnd where
  | origin
  | synthesized
  | untracked (operand : String)
  | unsupported (kind : Kind) (detail : String)
  /-- The record has an identifier but had not arrived. -/
  | incomplete (missing : RecordId)
  deriving DecidableEq, Repr, Inhabited

/-- Whether the trace has reached where the character came from: a question of those who read a
    trace, which no walk asks. -/
def TraceEnd.isComplete : TraceEnd → Bool
  | origin => true
  | synthesized => true
  | _ => false

/-- How a trace ends when the rule for a record of the given kind goes no further. -/
def Terminal.toEnd (kind : Kind) : Terminal → TraceEnd
  | literal => .origin
  | synthesized => .synthesized
  | untracked operand => .untracked operand
  | unsupported detail => .unsupported kind detail

/-- The steps from a character back, and why they end. -/
structure Trace where
  steps : List Step
  ending : TraceEnd
  deriving DecidableEq, Repr, Inhabited

/-- The last step. -/
def Trace.last? (trace : Trace) : Option Step := trace.steps.getLast?

end Provenance
