import Provenance.Command.Arguments
import Provenance.Command.Ingest
import Provenance.Files.Basic
import Provenance.Trace.Inspection

/-! # Running commands

A command works on a log and on at most one file, whose text is read beforehand.
-/

namespace Provenance

open Markup (Snapshot ResolvedOrigin)

/-- The file that a command reads. -/
def Command.file? : Command → Option String
  | ingest file => some file
  | resolve snapshot _ _ => some snapshot
  | _ => none

variable {σ : Type} [RecordLog σ]

/-- Ingests a file that may not be readable. A directory can be opened, and so can a file without
    text, but they have no lines. -/
def runIngest (file : String) (now : Nat) (content : Except FileError String) (log : σ) :
    Report × σ :=
  match content with
  | .ok text => ingest file text now log
  | .error .isDirectory => (.failed FileError.isDirectory.message, log)
  | .error .notText => (.failed FileError.notText.message, log)
  | .error _ => (.failed ("failed to open " ++ file), log)

/-- Prints a record. -/
def runPrint (id : RecordId) (now : Nat) (log : σ) : Report × σ :=
  match RecordLog.fetch id now log with
  | (.ok (.found record), log) => ({ documents := [record.toJson] }, log)
  | (.ok .notYetAvailable, log) =>
    (.failed ("record " ++ id.display ++ " is not yet available"), log)
  | (.ok .notFound, log) => (.failed ("record " ++ id.display ++ " not found"), log)
  | (.error e, log) => (.failed e.message, log)

/-- Prints the trace of a character. If there is none, the steps that were taken are printed. -/
def runTraverse (options : WalkOptions) (start : Step) (log : σ) : Report × σ :=
  match walk options start log with
  | (.ok trace, log) => ({ documents := [trace.toJson] }, log)
  | (.error e, log) =>
    let taken := .obj [("steps", .arr (e.steps.map Step.toJson))]
    ({ documents := if e.steps.isEmpty then [] else [taken], failure := some e.message }, log)

/-- Prints the origin of a character of a snapshot. -/
def resolveOrigin (snapshot : Snapshot) (index : Nat) : Option Report :=
  (snapshot.originAt index).map fun origin => { documents := [origin.toJson] }

/-- Prints what is known of a character of a snapshot whose text may not be readable. No sum may
    wrap around on the way. -/
def runResolve (options : WalkOptions) (file : String) (index : Nat) (trace : Bool)
    (content : Except FileError String) (log : σ) : Report × σ :=
  let uncovered : Report := .failed ("no origin covers character " ++ toString index)
  match content with
  | .error _ => (.failed ("failed to read " ++ file), log)
  | .ok text =>
    match (Json.Tree.read text).bind Snapshot.decode with
    | none => (.failed ("invalid snapshot " ++ file), log)
    | some snapshot =>
      if snapshot.wrapsAt index then (.broken, log)
      else if trace then
        match inspect options snapshot index log with
        | (.ok (some inspection), log) => ({ documents := [inspection.toJson] }, log)
        | (.ok none, log) => (uncovered, log)
        | (.error e, log) => (.failed e.message, log)
      else ((resolveOrigin snapshot index).getD uncovered, log)

/-- Runs a command, given what became of reading its file. -/
def Command.run (options : WalkOptions) (content : Except FileError String) (command : Command)
    (log : σ) : Report × σ :=
  match command with
  | ingest file => runIngest file options.now content log
  | print id => runPrint id options.now log
  | traverse id charIndex optimistic => runTraverse { options with optimistic } ⟨id, charIndex⟩ log
  | locate key => ({ documents := [.arr ((RecordLog.locate key log).map RecordId.toJson)] }, log)
  | resolve snapshot charIndex trace => runResolve options snapshot charIndex trace content log

end Provenance
