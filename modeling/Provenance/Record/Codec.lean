import Provenance.Json.Decode
import Provenance.Json.Printer
import Provenance.Record.Basic

/-! # Records as JSON

The written form of operations and what belongs to them, and the decoders that read it
back. Absent options and empty groups of extra operands are left out.
-/

namespace Provenance

open Json (Decoder Tree)
open Json.Decode

/-- The identifier as a number. -/
def RecordId.toJson (id : RecordId) : Json := .nat id.toNat

/-- Reads an identifier. -/
def RecordId.decode : Decoder RecordId := fun tree => (word tree).map RecordId.mk

/-- The kind as its tag. -/
def Kind.toJson (kind : Kind) : Json := .str kind.tag

/-- Reads a kind. -/
def Kind.decode : Decoder Kind := fun tree => (string tree).map Kind.ofTag

/-- The reference as an object with one member. -/
def DraftReference.toJson : DraftReference → Json
  | stored id => .obj [("stored", id.toJson)]
  | inBatch index => .obj [("batch", .nat index)]

/-- Reads a reference. -/
def DraftReference.decode : Decoder DraftReference := fun tree => do
  match ← alternative tree with
  | ("stored", some body) => (RecordId.decode body).map stored
  | ("batch", some body) => (nat body).map inBatch
  | _ => none

section Operands

variable {ρ : Type}

/-- The operand with its value and, if there is one, what it tracks. -/
def Operand.toJson (encode : ρ → Json) (operand : Operand ρ) : Json :=
  .obj (("value", operand.value) :: Json.field? "tracking" (operand.tracking.map encode))

/-- Reads an operand. -/
def Operand.decode (decode : Decoder ρ) : Decoder (Operand ρ) := fun tree => do
  match ← slots ["value", "tracking"] tree with
  | [value, tracking] => do
    let value ← withDefault .null Tree.toJson value
    let tracking ← maybeNull decode tracking
    pure { value, tracking }
  | _ => none

/-- The operands under their names. -/
def Operands.toJson (encode : ρ → Json) (operands : Operands ρ) : Json :=
  .obj (operands.entries.map fun entry => (entry.1, entry.2.toJson encode))

/-- The operands under their names, unless there are none. -/
def Operands.toJson? (encode : ρ → Json) (operands : Operands ρ) : Option Json :=
  if operands.entries.isEmpty then none else some (operands.toJson encode)

/-- Reads operands. -/
def Operands.decode (decode : Decoder ρ) : Decoder (Operands ρ)
  | .obj members =>
    (members.mapM fun member => (Operand.decode decode member.2).map (member.1, ·)).map
      Operands.ofList
  | _ => none

end Operands

/-- The position as an object. -/
def Position.toJson (position : Position) : Json :=
  .obj [("line", .nat position.line.toNat), ("column", .nat position.column.toNat)]

/-- Reads a position. -/
def Position.decode : Decoder Position := fun tree => do
  match ← slots ["line", "column"] tree with
  | [line, column] => do
    let line ← required word32 line
    let column ← required word32 column
    pure { line, column }
  | _ => none

/-- The location as an object. -/
def SourceLocation.toJson (location : SourceLocation) : Json :=
  .obj [("file", .str location.file), ("start", location.start.toJson),
    ("end", location.stop.toJson)]

/-- Reads a location. -/
def SourceLocation.decode : Decoder SourceLocation := fun tree => do
  match ← slots ["file", "start", "end"] tree with
  | [file, start, stop] => do
    let file ← required string file
    let start ← required Position.decode start
    let stop ← required Position.decode stop
    pure { file, start, stop }
  | _ => none

/-- The name of an assignment target. -/
def AssignmentTarget.name : AssignmentTarget → String
  | identifier => "identifier"
  | memberExpression => "member-expression"

/-- The target of a name. -/
def AssignmentTarget.ofName : String → Option AssignmentTarget
  | "identifier" => some identifier
  | "member-expression" => some memberExpression
  | _ => none

/-- The target of a name in any case, or of the name without its hyphen. -/
def AssignmentTarget.parse (text : String) : Option AssignmentTarget :=
  match String.ofList (text.toList.map Char.toLower) with
  | "identifier" => some identifier
  | "member-expression" => some memberExpression
  | "memberexpression" => some memberExpression
  | _ => none

/-- The target as its name. -/
def AssignmentTarget.toJson (target : AssignmentTarget) : Json := .str target.name

/-- Reads a target. -/
def AssignmentTarget.decode : Decoder AssignmentTarget := choice AssignmentTarget.ofName

/-- The static arguments as an object. -/
def StaticArgs.toJson (args : StaticArgs) : Json :=
  .obj (Json.field? "operator" (args.operator.map .str)
    ++ Json.field? "target" (args.target.map AssignmentTarget.toJson)
    ++ Json.field? "loc" (args.location.map SourceLocation.toJson))

/-- Reads static arguments. -/
def StaticArgs.decode : Decoder StaticArgs := fun tree => do
  match ← slots ["operator", "target", "loc"] tree with
  | [operator, target, location] => do
    let operator ← optional string operator
    let target ← optional AssignmentTarget.decode target
    let location ← optional SourceLocation.decode location
    pure { operator, target, location }
  | _ => none

/-- The members that describe an operation. -/
def Operation.members (encode : ρ → Json) (op : Operation ρ) : List (String × Json) :=
  [("kind", op.kind.toJson), ("args", op.args.toJson encode),
    ("static_args", op.staticArgs.toJson)]
    ++ Json.field? "extra_args" (op.extraArgs.toJson? encode)
    ++ Json.field? "runtime_args" (op.runtimeArgs.toJson? encode)
    ++ [("result", op.result)]

/-- The fields of an operation, in order. -/
def Operation.fields : List String :=
  ["kind", "args", "static_args", "extra_args", "runtime_args", "result"]

/-- Reads an operation from its fields. -/
def Operation.ofSlots (decode : Decoder ρ) : List Slot → Option (Operation ρ)
  | [kind, args, staticArgs, extraArgs, runtimeArgs, result] => do
    let kind ← required Kind.decode kind
    let args ← withDefault .empty (Operands.decode decode) args
    let staticArgs ← withDefault {} StaticArgs.decode staticArgs
    let extraArgs ← withDefault .empty (Operands.decode decode) extraArgs
    let runtimeArgs ← withDefault .empty (Operands.decode decode) runtimeArgs
    let result ← withDefault .null Tree.toJson result
    pure { kind, args, staticArgs, extraArgs, runtimeArgs, result }
  | _ => none

/-- The draft as an object. -/
def Draft.toJson (draft : Draft) : Json := .obj (draft.members DraftReference.toJson)

/-- Reads a draft. -/
def Draft.decode : Decoder Draft := fun tree => do
  Operation.ofSlots DraftReference.decode (← slots Operation.fields tree)

/-- The record as an object. -/
def Record.toJson (record : Record) : Json :=
  .obj (("id", record.id.toJson) :: record.members RecordId.toJson)

/-- Reads a record. -/
def Record.decode : Decoder Record := fun tree => do
  match ← slots ("id" :: Operation.fields) tree with
  | id :: rest => do
    let id ← required RecordId.decode id
    let op ← Operation.ofSlots RecordId.decode rest
    pure { op with id }
  | [] => none

/-- The written form of a record. -/
def Record.render (record : Record) : String := record.toJson.render

/-- Reads a record back from its written form. -/
def Record.read (text : String) : Option Record := (Tree.read text).bind Record.decode

end Provenance
