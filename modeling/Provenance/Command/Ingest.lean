import Provenance.Log.Basic
import Provenance.Record.Codec
import Provenance.Text.Blank
import Provenance.Text.Lines

/-! # Ingesting batches

Every line of a file of batches is blank or holds one batch as JSON: a list of drafts, or a
single draft. Nothing is appended unless every line can be read.
-/

namespace Provenance

/-- What a command has to say: documents, and then perhaps why it failed. -/
structure Report where
  documents : List Json := []
  failure : Option String := none
  /-- Whether the command was broken off by a sum that is too large for its word. -/
  aborted : Bool := false
  deriving Inhabited

/-- The report that something failed. -/
def Report.failed (message : String) : Report := { failure := some message }

/-- The report of a command that was broken off. -/
def Report.broken : Report := { aborted := true }

/-- The report with a document in front. -/
def Report.after (document : Json) (report : Report) : Report :=
  { report with documents := document :: report.documents }

/-- A batch and the number of its line. -/
structure LineBatch where
  line : Nat
  drafts : List Draft

/-- The name of a line of a file. -/
def lineName (file : String) (line : Nat) : String := file ++ ":" ++ toString line

/-- Reads a line as a batch. -/
def readBatch (line : String) : Option (List Draft) :=
  match Json.read line with
  | some (.arr items) => items.mapM fun item => Draft.decode item.toTree
  | some value => (Draft.decode value.toTree).map ([·])
  | none => none

/-- Reads the batches of lines, of which the first has the given number. The error is the number
    of a line that holds no batch. -/
def readBatches (number : Nat) : List String → Except Nat (List LineBatch)
  | [] => .ok []
  | line :: rest =>
    if Text.allBlank line then readBatches (number + 1) rest
    else
      match readBatch line with
      | none => .error number
      | some drafts => (readBatches (number + 1) rest).map (⟨number, drafts⟩ :: ·)

variable {σ : Type} [RecordLog σ]

/-- Appends batches in order, up to the first that the log refuses. The identifiers of every
    batch are a document. -/
def appendBatches (file : String) (now : Nat) : List LineBatch → σ → Report × σ
  | [], log => ({}, log)
  | batch :: rest, log =>
    match RecordLog.append batch.drafts now log with
    | (.error _, log) => (.failed (lineName file batch.line ++ ": batch rejected"), log)
    | (.ok ids, log) =>
      let (report, log) := appendBatches file now rest log
      (report.after (.arr (ids.map RecordId.toJson)), log)

/-- Ingests the text of a file. -/
def ingest (file text : String) (now : Nat) (log : σ) : Report × σ :=
  match readBatches 1 ((Text.lines text.toList).map String.ofList) with
  | .error line => (.failed (lineName file line ++ ": invalid batch"), log)
  | .ok batches => appendBatches file now batches log

end Provenance
