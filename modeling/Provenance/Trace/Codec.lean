import Provenance.Record.Codec
import Provenance.Trace.Basic

/-! # Traces as JSON -/

namespace Provenance

open Json (Decoder Tree)
open Json.Decode

/-- The step as an object. -/
def Step.toJson (step : Step) : Json :=
  .obj [("id", step.id.toJson), ("char_index", .nat step.charIndex)]

/-- Reads a step. -/
def Step.decode : Decoder Step := fun tree => do
  match ← slots ["id", "char_index"] tree with
  | [id, charIndex] => do
    let id ← required RecordId.decode id
    let charIndex ← required nat charIndex
    pure { id, charIndex }
  | _ => none

/-- The end as an object whose first member tells which end it is. -/
def TraceEnd.toJson : TraceEnd → Json
  | origin => .obj [("end", .str "origin")]
  | synthesized => .obj [("end", .str "synthesized")]
  | untracked operand => .obj [("end", .str "untracked"), ("operand", .str operand)]
  | unsupported kind detail =>
    .obj [("end", .str "unsupported"), ("kind", kind.toJson), ("detail", .str detail)]
  | incomplete missing => .obj [("end", .str "incomplete"), ("missing", missing.toJson)]

/-- Reads the end of the given name from what is there beside the name. -/
def TraceEnd.decodeBody (name : String) (body : Tree) : Option TraceEnd :=
  match name with
  | "origin" => if body matches .arr (_ :: _) then none else some origin
  | "synthesized" => if body matches .arr (_ :: _) then none else some synthesized
  | "untracked" => do
    match ← slots ["operand"] body with
    | [operand] => (required string operand).map untracked
    | _ => none
  | "unsupported" => do
    match ← slots ["kind", "detail"] body with
    | [kind, detail] => do
      let kind ← required Kind.decode kind
      let detail ← required string detail
      pure (unsupported kind detail)
    | _ => none
  | "incomplete" => do
    match ← slots ["missing"] body with
    | [missing] => (required RecordId.decode missing).map incomplete
    | _ => none
  | _ => none

/-- Reads an end: an object one of whose members names it, or an array that begins with the
    name. All that is beside the name has to stand for values. -/
def TraceEnd.decode : Decoder TraceEnd
  | .obj members =>
    match members.partition (·.1 == "end") with
    | ([(_, .str name)], rest) => do
      let _ ← Tree.toMembers rest
      decodeBody name (.obj rest)
    | _ => none
  | .arr (.str name :: rest) => do
    let _ ← Tree.toItems rest
    decodeBody name (.arr rest)
  | _ => none

/-- The trace as an object. -/
def Trace.toJson (trace : Trace) : Json :=
  .obj [("steps", .arr (trace.steps.map Step.toJson)), ("end", trace.ending.toJson)]

/-- Reads a trace. -/
def Trace.decode : Decoder Trace := fun tree => do
  match ← slots ["steps", "end"] tree with
  | [steps, ending] => do
    let steps ← required (list Step.decode) steps
    let ending ← required TraceEnd.decode ending
    pure { steps, ending }
  | _ => none

/-- The reason as its name, or as an object with what belongs to it. -/
def Terminal.toJson : Terminal → Json
  | literal => .str "literal"
  | synthesized => .str "synthesized"
  | untracked operand => .obj [("untracked", .obj [("operand", .str operand)])]
  | unsupported detail => .obj [("unsupported", .obj [("detail", .str detail)])]

/-- Reads a reason. -/
def Terminal.decode : Decoder Terminal := fun tree => do
  match ← alternative tree with
  | ("literal", body) => (nothing body).map fun _ => literal
  | ("synthesized", body) => (nothing body).map fun _ => synthesized
  | ("untracked", some body) => do
    match ← slots ["operand"] body with
    | [operand] => (required string operand).map untracked
    | _ => none
  | ("unsupported", some body) => do
    match ← slots ["detail"] body with
    | [detail] => (required string detail).map unsupported
    | _ => none
  | _ => none

end Provenance
