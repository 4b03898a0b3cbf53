import Provenance.Log.Basic

/-! # Logs in memory

Records are there as soon as they are appended. An index by source location is kept
beside them.
-/

namespace Provenance

/-- A log in memory. -/
structure MemoryLog where
  /-- The records, oldest first. -/
  records : List Record := []
  /-- The identifiers of the records with a location, oldest first, by the location's key. -/
  byLocation : Named (List RecordId) := []
  /-- The identifier that the next record gets. -/
  nextId : RecordId := .first
  /-- The greatest identifier that was given out, zero before the first one. Look-ups go by this
      mark, and leave `nextId` to the appends. -/
  allocated : RecordId := ⟨0⟩
  deriving Inhabited

namespace MemoryLog

/-- Enters a record into the index by location. -/
def index (byLocation : Named (List RecordId)) (record : Record) : Named (List RecordId) :=
  match record.locationKey with
  | none => byLocation
  | some key => byLocation.insert key ((byLocation.get? key).getD [] ++ [record.id])

/-- Gives identifiers to a batch and keeps its records, or refuses the whole batch. -/
def append (batch : List Draft) (log : MemoryLog) : Except LogError (List RecordId) × MemoryLog :=
  match resolveBatch log.nextId batch with
  | .error cause => (.error (.invalidReference cause), log)
  | .ok records =>
    (.ok (records.map Record.id), {
      records := log.records ++ records
      byLocation := records.foldl index log.byLocation
      nextId := nextAfter log.nextId records
      allocated := lastOf log.allocated records })

/-- Looks up a record. -/
def fetch (id : RecordId) (log : MemoryLog) : Fetch :=
  match log.records.find? (·.id = id) with
  | some record => .found record
  | none => if id ≠ ⟨0⟩ ∧ id ≤ log.allocated then .notYetAvailable else .notFound

/-- The records with a source location of the given key. -/
def locate (key : String) (log : MemoryLog) : List RecordId :=
  (log.byLocation.get? key).getD []

/-- The number of records. -/
def size (log : MemoryLog) : Nat := log.records.length

instance : RecordLog MemoryLog where
  append batch _ log := log.append batch
  fetch id _ log := (.ok (log.fetch id), log)
  locate key log := log.locate key
  flush log := (.ok (), log)
  size log := log.size

end MemoryLog

/-- A log that only hands out given records; some identifiers may be waiting for theirs. -/
structure FixedLog where
  records : List Record
  awaited : List RecordId := []

namespace FixedLog

/-- Looks up a record; of several with the same identifier the last one counts. -/
def fetch (id : RecordId) (log : FixedLog) : Fetch :=
  if id ∈ log.awaited then .notYetAvailable
  else
    match log.records.reverse.find? (·.id = id) with
    | some record => .found record
    | none => .notFound

instance : RecordLog FixedLog where
  append _ _ log := (.ok [], log)
  fetch id _ log := (.ok (log.fetch id), log)
  locate _ _ := []
  flush log := (.ok (), log)
  size log := log.records.length

end FixedLog

end Provenance
