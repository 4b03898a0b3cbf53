import Provenance.Log.Table

/-! # Buffered logs

Appended records get their identifiers at once, but wait in a buffer until they are
written to the table, all together. Until then they cannot be fetched. The buffer is
written when it holds many records or old ones: at the end of an append, and before a
look-up. A write that fails leaves the records in the buffer. The table can fail by itself;
operations that may write take that failure, if there is one, as their last argument.
-/

namespace Provenance

/-- When the buffer has to be written. -/
structure BufferLimits where
  /-- It holds this many records. -/
  maxRecords : Nat := 256
  /-- Its oldest record is this many milliseconds old. -/
  maxAge : Nat := 100
  deriving DecidableEq, Repr, Inhabited

/-- A record in the buffer, and when it was put there. -/
structure Waiting where
  record : Record
  since : Nat

/-- A log over a table, with a buffer. -/
structure BufferedLog where
  table : Table
  /-- The records that are not yet written, oldest first. -/
  buffer : List Waiting
  /-- The identifier that the next record gets. -/
  nextId : RecordId
  limits : BufferLimits

namespace BufferedLog

/-- Opens a log over a table: identifiers go on after the greatest key. -/
def openOn (table : Table) (limits : BufferLimits) : BufferedLog where
  table := table
  buffer := []
  nextId := (RecordId.ofKey table.greatestKey).next
  limits := limits

/-- Whether the buffer has to be written. -/
def isDue (log : BufferedLog) (now : Nat) : Bool :=
  log.limits.maxRecords ≤ log.buffer.length ||
    match log.buffer with
    | [] => false
    | oldest :: _ => log.limits.maxAge ≤ now - oldest.since

/-- Writes the buffer to the table, all of it or nothing. Gives the number of records
    written. -/
def flush (log : BufferedLog) (failure : Option LogError := none) :
    Except LogError Nat × BufferedLog :=
  if log.buffer.isEmpty then (.ok 0, log)
  else
    match failure with
    | some cause => (.error cause, log)
    | none =>
      match log.table.insertAll? (log.buffer.map fun waiting => .ofRecord waiting.record) with
      | some table => (.ok log.buffer.length, { log with table, buffer := [] })
      | none => (.error .duplicateKey, log)

/-- Writes the buffer if it has to be written. -/
def flushIfDue (now : Nat) (log : BufferedLog) (failure : Option LogError := none) :
    Except LogError Nat × BufferedLog :=
  if log.isDue now then log.flush failure else (.ok 0, log)

/-- Gives identifiers to a batch and puts its records into the buffer, or refuses the whole
    batch. An empty batch changes nothing. -/
def append (batch : List Draft) (now : Nat) (log : BufferedLog)
    (failure : Option LogError := none) : Except LogError (List RecordId) × BufferedLog :=
  if batch.isEmpty then (.ok [], log)
  else
    match resolveBatch log.nextId batch with
    | .error cause => (.error (.invalidReference cause), log)
    | .ok records =>
      let log := { log with
        buffer := log.buffer ++ records.map (Waiting.mk · now)
        nextId := nextAfter log.nextId records }
      (.ok (records.map Record.id), (log.flushIfDue now failure).2)

/-- Looks up a record as the log stands. -/
def lookUp (id : RecordId) (log : BufferedLog) : Except LogError Fetch :=
  if log.buffer.any (·.record.id = id) then .ok .notYetAvailable
  else if id = ⟨0⟩ ∨ log.nextId ≤ id then .ok .notFound
  else
    match log.table.load id with
    | .error e => .error e
    | .ok (some record) => .ok (.found record)
    | .ok none => .ok .notFound

/-- Looks up a record, after writing the buffer if it has to be written. -/
def fetch (id : RecordId) (now : Nat) (log : BufferedLog)
    (failure : Option LogError := none) : Except LogError Fetch × BufferedLog :=
  let log := (log.flushIfDue now failure).2
  (log.lookUp id, log)

/-- The written records with a source location of the given key. -/
def locate (key : String) (log : BufferedLog) : List RecordId := log.table.locate key

/-- The table that is left when the log is closed: the buffer is written, or lost if that
    fails. -/
def close (log : BufferedLog) : Table := log.flush.2.table

/-- Closes the log and opens it again. -/
def reopen (log : BufferedLog) : BufferedLog := openOn log.close log.limits

/-- The time at which everything in the buffer has become old enough to be written. The log only
    looks at the clock; this is for whoever sets one to let the log catch up. -/
def dueTime (log : BufferedLog) (now : Nat) : Nat :=
  log.buffer.foldl (fun time waiting => max time (waiting.since + log.limits.maxAge)) now

instance : RecordLog BufferedLog where
  append batch now log := log.append batch now
  fetch id now log := log.fetch id now
  locate key log := log.locate key
  flush log :=
    match log.flush with
    | (.ok _, log) => (.ok (), log)
    | (.error e, log) => (.error e, log)
  size log := log.table.rows.length + log.buffer.length

end BufferedLog

end Provenance
