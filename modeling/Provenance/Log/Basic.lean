import Provenance.Record.Basic

/-! # Record logs

A log gives identifiers to batches of drafts and hands out records by identifier. A record
may have an identifier before it can be fetched. Times are milliseconds of a clock that
the caller reads.
-/

namespace Provenance

/-- What a log has for an identifier. -/
inductive Fetch where
  | found (record : Record)
  /-- The identifier was given out, but the record cannot be fetched yet. -/
  | notYetAvailable
  /-- The identifier was never given out. -/
  | notFound
  deriving Inhabited

/-- Why a log fails. -/
inductive LogError where
  /-- A batch refers to something that is not older. -/
  | invalidReference (cause : ReferenceError)
  /-- A row with that key is there already. -/
  | duplicateKey
  /-- A row does not hold the text of a record. -/
  | unreadableRow
  /-- A row holds another record than its key says. -/
  | corrupt (id holds : RecordId)
  deriving DecidableEq, Repr

/-- The wording of the error. -/
def LogError.message : LogError → String
  | invalidReference cause => "invalid reference in batch: " ++ cause.message
  | duplicateKey => "a row with this key exists already"
  | unreadableRow => "the row does not hold a record"
  | corrupt id holds => "corrupt record " ++ id.display ++ ": row holds " ++ holds.display

/-- The operations of a record log. Those that can change the log return it. -/
class RecordLog (σ : Type) where
  /-- Gives identifiers to a batch of drafts. -/
  append : (batch : List Draft) → (now : Nat) → σ → Except LogError (List RecordId) × σ
  /-- Looks up a record. -/
  fetch : RecordId → (now : Nat) → σ → Except LogError Fetch × σ
  /-- The records with a source location of the given key that can be fetched. -/
  locate : (key : String) → σ → List RecordId
  /-- Makes everything that was appended available to all readers. -/
  flush : σ → Except LogError Unit × σ
  /-- A bound on the number of identifiers that can be found. -/
  size : σ → Nat

/-- Whether a record can be fetched at once. -/
def RecordLog.has [RecordLog σ] (id : RecordId) (now : Nat) (log : σ) :
    Except LogError Bool × σ :=
  match RecordLog.fetch id now log with
  | (.ok (.found _), log) => (.ok true, log)
  | (.ok _, log) => (.ok false, log)
  | (.error e, log) => (.error e, log)

/-- The identifier of the last of the given records, or the given one if there are none. -/
def lastOf (id : RecordId) (records : List Record) : RecordId :=
  match records.getLast? with
  | some record => record.id
  | none => id

/-- The identifier after those of the given records. -/
def nextAfter (id : RecordId) (records : List Record) : RecordId :=
  match records.getLast? with
  | some record => record.id.next
  | none => id

end Provenance
