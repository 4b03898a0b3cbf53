import Provenance.Json.Basic
import Provenance.Record.Id
import Provenance.Record.Kind

/-! # Operations, drafts and records

An operation has operands in three groups, facts from the source text, and a result. An
operand pairs a value with what produced it. In a draft that is a reference to a stored
record or to an earlier draft of the same batch; in a record it is the identifier of a
record. `Draft.resolve` turns one into the other.
-/

namespace Provenance

/-- A value, and what produced it, if that was recorded. -/
structure Operand (ρ : Type) where
  value : Json := .null
  tracking : Option ρ := none
  deriving Inhabited

/-- The text of the operand's value, if it is one. -/
def Operand.text? (operand : Operand ρ) : Option String := operand.value.str?

/-- Operands under distinct names, in order. -/
structure Operands (ρ : Type) where
  entries : Named (Operand ρ)
  distinct : entries.names.Nodup

namespace Operands

variable {ρ σ ε : Type}

/-- No operands. -/
def empty : Operands ρ where
  entries := []
  distinct := List.nodup_nil

instance : Inhabited (Operands ρ) := ⟨empty⟩

/-- The operand of a name. -/
def get? (operands : Operands ρ) (name : String) : Option (Operand ρ) :=
  Named.get? name operands.entries

/-- Puts in an operand; one of the same name is replaced in its place. -/
def insert (operands : Operands ρ) (name : String) (operand : Operand ρ) : Operands ρ where
  entries := Named.insert name operand operands.entries
  distinct := Named.nodup_insert operands.distinct name operand

/-- The operands of a list; of repeated names the last one counts. -/
def ofList (entries : Named (Operand ρ)) : Operands ρ where
  entries := Named.distinct entries
  distinct := Named.nodup_distinct entries

/-- What the operands track, in order. -/
def references (operands : Operands ρ) : List ρ :=
  operands.entries.filterMap fun entry => entry.2.tracking

/-- Replaces what is tracked, entry by entry, up to the first failure. The names stay. -/
def resolveEntries (resolve : ρ → Except ε σ) : (entries : Named (Operand ρ)) →
    Except ε { resolved : Named (Operand σ) // resolved.names = entries.names }
  | [] => .ok ⟨[], rfl⟩
  | (name, operand) :: rest =>
    match operand.tracking.mapM resolve with
    | .error e => .error e
    | .ok tracking =>
      match resolveEntries resolve rest with
      | .error e => .error e
      | .ok ⟨resolved, hsame⟩ =>
        .ok ⟨(name, ⟨operand.value, tracking⟩) :: resolved, by simpa [Named.names] using hsame⟩

/-- Replaces what is tracked, up to the first failure. -/
def resolve (operands : Operands ρ) (resolve : ρ → Except ε σ) : Except ε (Operands σ) :=
  match resolveEntries resolve operands.entries with
  | .error e => .error e
  | .ok ⟨entries, hsame⟩ => .ok ⟨entries, hsame ▸ operands.distinct⟩

end Operands

/-- A place in a source text. -/
structure Position where
  line : UInt32
  column : UInt32
  deriving DecidableEq, Repr, Inhabited

/-- A stretch of a source text. -/
structure SourceLocation where
  file : String
  start : Position
  stop : Position
  deriving DecidableEq, Repr, Inhabited

/-- The key under which a location is looked up: the file and the place where it starts. -/
def SourceLocation.key (location : SourceLocation) : String :=
  String.ofList (location.file.toList ++ ':' :: Nat.toDigits 10 location.start.line.toNat
    ++ ':' :: Nat.toDigits 10 location.start.column.toNat)

/-- What an assignment assigns to. -/
inductive AssignmentTarget where
  | identifier
  | memberExpression
  deriving DecidableEq, Repr, Inhabited

/-- What is known of an operation from its source text. -/
structure StaticArgs where
  operator : Option String := none
  target : Option AssignmentTarget := none
  location : Option SourceLocation := none
  deriving DecidableEq, Repr, Inhabited

/-- An operation whose operands track things of type `ρ`. -/
structure Operation (ρ : Type) where
  kind : Kind
  args : Operands ρ := .empty
  staticArgs : StaticArgs := {}
  extraArgs : Operands ρ := .empty
  runtimeArgs : Operands ρ := .empty
  result : Json := .null
  deriving Inhabited

/-- An operation of a log, all of whose operands track records of that log. -/
structure Record extends Operation RecordId where
  id : RecordId
  deriving Inhabited

namespace Operation

variable {ρ : Type}

/-- The operator of the operation. -/
def operator (op : Operation ρ) : Option String := op.staticArgs.operator

/-- The source location of the operation. -/
def location (op : Operation ρ) : Option SourceLocation := op.staticArgs.location

/-- What the operands of all three groups track, in order. -/
def references (op : Operation ρ) : List ρ :=
  op.args.references ++ op.extraArgs.references ++ op.runtimeArgs.references

/-- The key of the operation's source location. -/
def locationKey (op : Operation ρ) : Option String := op.location.map SourceLocation.key

end Operation

/-- What an operand of a draft tracks. -/
inductive DraftReference where
  /-- A record of the log. -/
  | stored (id : RecordId)
  /-- An earlier draft of the same batch, by its place. -/
  | inBatch (index : Nat)
  deriving DecidableEq, Repr, Inhabited

/-- An operation before it has an identifier. -/
abbrev Draft := Operation DraftReference

/-- Why a reference is refused. -/
inductive ReferenceError where
  /-- The referenced record is not older than the record itself. -/
  | forward (record reference : RecordId)
  /-- The referenced draft does not come before the draft itself. -/
  | batch (index reference : Nat)
  deriving DecidableEq, Repr

/-- The wording of the error. -/
def ReferenceError.message : ReferenceError → String
  | .forward record reference =>
    "record " ++ record.display ++ " references " ++ reference.display
      ++ ", which is not older than itself"
  | .batch index reference =>
    "batch entry " ++ String.ofList (Nat.toDigits 10 index) ++ " references batch entry "
      ++ String.ofList (Nat.toDigits 10 reference) ++ ", which does not precede it"

/-- The record that a reference names, seen from the draft that becomes record `id` after the
    drafts that became `preceding`. -/
def DraftReference.resolve (id : RecordId) (preceding : List RecordId) :
    DraftReference → Except ReferenceError RecordId
  | stored reference => if id ≤ reference then .error (.forward id reference) else .ok reference
  | inBatch index =>
    match preceding[index]? with
    | some reference => .ok reference
    | none => .error (.batch preceding.length index)

/-- The record that a draft becomes. The first operand with a bad reference is reported,
    in the order arguments, extra arguments, runtime arguments. -/
def Operation.resolve (draft : Draft) (id : RecordId) (preceding : List RecordId) :
    Except ReferenceError Record := do
  let args ← draft.args.resolve (DraftReference.resolve id preceding)
  let extraArgs ← draft.extraArgs.resolve (DraftReference.resolve id preceding)
  let runtimeArgs ← draft.runtimeArgs.resolve (DraftReference.resolve id preceding)
  pure { draft with id, args, extraArgs, runtimeArgs }

/-- The records that the drafts of a batch become, with consecutive identifiers from `first`;
    `preceding` are those of the drafts before these. -/
def resolveFrom (first : RecordId) (preceding : List RecordId) :
    List Draft → Except ReferenceError (List Record)
  | [] => .ok []
  | draft :: rest => do
    let id := first.offset preceding.length
    let record ← draft.resolve id preceding
    let records ← resolveFrom first (preceding ++ [id]) rest
    pure (record :: records)

/-- The records that a batch becomes. The first bad reference refuses the whole batch. -/
def resolveBatch (first : RecordId) (batch : List Draft) :
    Except ReferenceError (List Record) :=
  resolveFrom first [] batch

end Provenance
