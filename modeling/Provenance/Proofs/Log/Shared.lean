import Provenance.Proofs.Log.Closed

/-! # Buffered logs that others use as well

While one reader looks up one record after another, time passes, others write the buffer or try
to, and the write that a look-up begins with may fail. A shared log has all this on a list, turn by
turn; a reader that uses nothing but the operations of a log cannot tell where it comes from.

Every write moves the whole buffer, so the records that are written come before all that wait.
Hence an identifier that does not wait never waits again, and what its record refers to does not
wait either.
-/

namespace Provenance

/-- A write of the buffer by somebody else, which may fail. -/
inductive Write where
  /-- Somebody asks for it. -/
  | asked (failure : Option LogError)
  /-- It is done if it is due, as at every look-up. -/
  | due (now : Nat) (failure : Option LogError)

/-- What a write does to the log. -/
def Write.apply (log : BufferedLog) : Write → BufferedLog
  | asked failure => (log.flush failure).2
  | due now failure => (log.flushIfDue now failure).2

/-- What happens up to a look-up. -/
structure Turn where
  /-- The writes by others since the look-up before. -/
  writes : List Write := []
  /-- The time of the look-up. -/
  now : Nat
  /-- How the table fails at the look-up, if it does. -/
  failure : Option LogError := none

/-- A buffered log, and what happens before each of the next look-ups. -/
structure Shared where
  log : BufferedLog
  turns : List Turn := []

namespace Shared

/-- What the log has become when the next record is looked up. After the last turn nobody else
    uses the log. -/
def next (now : Nat) (shared : Shared) : Shared :=
  match shared.turns with
  | [] => ⟨(shared.log.flushIfDue now).2, []⟩
  | turn :: turns =>
    ⟨((turn.writes.foldl Write.apply shared.log).flushIfDue turn.now turn.failure).2, turns⟩

/-- Looks up a record when it is its turn. -/
def fetch (id : RecordId) (now : Nat) (shared : Shared) : Except LogError Fetch × Shared :=
  ((shared.next now).log.lookUp id, shared.next now)

instance : RecordLog Shared where
  append batch now shared :=
    let (answer, log) := shared.log.append batch now
    (answer, { shared with log })
  fetch id now shared := shared.fetch id now
  locate key shared := shared.log.locate key
  flush shared :=
    let (answer, log) := RecordLog.flush shared.log
    (answer, { shared with log })
  size shared := RecordLog.size shared.log

end Shared

/-- Whether the record of an identifier is in the buffer. -/
def BufferedLog.Waits (log : BufferedLog) (id : RecordId) : Prop := id ∈ log.pending.map (·.id)

instance (log : BufferedLog) (id : RecordId) : Decidable (log.Waits id) :=
  inferInstanceAs (Decidable (id ∈ log.pending.map (·.id)))

theorem BufferedLog.waits_iff_any {log : BufferedLog} {id : RecordId} :
    log.Waits id ↔ log.buffer.any (·.record.id = id) := by
  rw [Waits, pending, List.map_map]
  simp

theorem BufferedLog.lookUp_of_waits {log : BufferedLog} {id : RecordId} (hwaits : log.Waits id) :
    log.lookUp id = .ok .notYetAvailable := by
  rw [lookUp, if_pos (waits_iff_any.mp hwaits)]

/-- What a log becomes without an append: it still has the batches that the one in memory has, and
    nothing starts to wait. -/
structure Later (memory : MemoryLog) (log later : BufferedLog) : Prop where
  together : Together memory later
  waits : ∀ id, later.Waits id → log.Waits id

namespace Later

variable {memory : MemoryLog} {log later last : BufferedLog}

theorem refl (htogether : Together memory log) : Later memory log log := ⟨htogether, fun _ => id⟩

theorem trans (hfirst : Later memory log later) (hsecond : Later memory later last) :
    Later memory log last :=
  ⟨hsecond.together, fun id hwaits => hfirst.waits id (hsecond.waits id hwaits)⟩

end Later

namespace Together

variable {memory : MemoryLog} {log later : BufferedLog} {id reference : RecordId}
  {record : Record}

section Step

variable (hroom : memory.records.length < RecordId.bound)

include hroom

theorem later_of_quiet (htogether : Together memory log) (hquiet : log.Quiet later) :
    Later memory log later := by
  refine ⟨htogether.quiet hquiet, fun id hwaits => ?_⟩
  obtain ⟨written, waiting, hholds, hall⟩ := htogether.holds hroom
  rw [← hall] at hroom
  unfold BufferedLog.Waits at hwaits ⊢
  obtain hstill | hflushed := hholds.quiet hroom hquiet
  · rwa [hstill.pending, ← hholds.pending] at hwaits
  · rw [hflushed.pending] at hwaits
    cases hwaits

theorem later_write (htogether : Together memory log) (write : Write) :
    Later memory log (write.apply log) := by
  cases write with
  | asked failure => exact htogether.later_of_quiet hroom (.flush failure)
  | due now failure => exact htogether.later_of_quiet hroom (.flushIfDue now failure)

theorem later_writes (htogether : Together memory log) (writes : List Write) :
    Later memory log (writes.foldl Write.apply log) := by
  induction writes generalizing log with
  | nil => exact .refl htogether
  | cons write writes ih =>
      have hfirst := htogether.later_write hroom write
      exact hfirst.trans (ih hfirst.together)

theorem later_next {shared : Shared} (htogether : Together memory shared.log) (now : Nat) :
    Later memory shared.log (shared.next now).log := by
  unfold Shared.next
  split
  · exact htogether.later_of_quiet hroom (.flushIfDue now none)
  · rename_i turn turns _
    have hbefore := htogether.later_writes hroom turn.writes
    exact hbefore.trans (hbefore.together.later_of_quiet hroom (.flushIfDue turn.now turn.failure))

end Step

variable (htogether : Together memory log) (hroom : memory.records.length < RecordId.bound)

include htogether hroom

/-- What does not wait is answered as in memory. -/
theorem lookUp_of_not_waits (hstorable : ∀ record ∈ memory.records, record.Storable)
    (hfree : ¬ log.Waits id) : log.lookUp id = .ok (memory.fetch id) := by
  obtain ⟨written, waiting, hholds, hall⟩ := htogether.holds hroom
  obtain ⟨hwaits, -⟩ | hanswer := lookUp_cases htogether.reached hholds hall hroom hstorable id
  · rw [← hholds.pending] at hwaits
    exact absurd hwaits hfree
  · exact hanswer

theorem not_waits_of_mem (hfree : ¬ log.Waits id) (hfound : memory.fetch id = .found record)
    (hmem : reference ∈ record.references) : ¬ log.Waits reference := by
  obtain ⟨written, waiting, hholds, hall⟩ := htogether.holds hroom
  have hword := RecordId.lt_size_of_lt_bound hroom
  obtain ⟨hstored, rfl⟩ := MemoryLog.mem_of_find (MemoryLog.find_of_fetch hfound)
  have hlooksBack := htogether.reached.looksBack hword record hstored
  have holder := RecordId.toNat_lt_iff.mp (hlooksBack reference hmem)
  have hordered := htogether.reached.numbered_and_next.1.pairwise_toNat (Nat.lt_of_succ_lt hword)
  rw [← hall] at hstored hordered
  unfold BufferedLog.Waits at hfree ⊢
  rw [hholds.pending] at hfree ⊢
  obtain hwritten | hwaits := List.mem_append.mp hstored
  · obtain ⟨-, -, hapart⟩ := List.pairwise_append.mp hordered
    intro hlisted
    obtain ⟨source, hwaits, rfl⟩ := List.mem_map.mp hlisted
    exact Nat.lt_asymm holder (hapart record hwritten source hwaits)
  · exact absurd (List.mem_map_of_mem hwaits) hfree

theorem same_nextId : log.nextId = memory.nextId := by
  obtain ⟨written, waiting, hholds, hall⟩ := htogether.holds hroom
  exact nextId_eq htogether.reached hholds hall

theorem size_eq : RecordLog.size log = RecordLog.size memory := by
  obtain ⟨written, waiting, hholds, hall⟩ := htogether.holds hroom
  have hrows : log.table.rows.length = written.length := by
    rw [hholds.table]
    exact List.length_map _
  have hbuffer : log.buffer.length = waiting.length := by
    rw [← hholds.pending]
    exact (List.length_map _).symm
  change log.table.rows.length + log.buffer.length = memory.records.length
  rw [hrows, hbuffer, ← hall, List.length_append]

end Together

/-! ## Whole runs -/

section Runs

variable {memory : MemoryLog} {log later : BufferedLog} {ids : List RecordId} {added : List Record}
  (htogether : Together memory log) (hrun : BufferedLog.Run log ids added later)
  (hroom : (memory.records ++ added).length < RecordId.bound)

include htogether hrun hroom

/-- A log in memory can be given the batches of a run as well. -/
theorem Together.exists_run :
    ∃ grown, MemoryLog.Run memory ids grown ∧ Together grown later ∧
      grown.records = memory.records ++ added := by
  induction hrun with
  | start => exact ⟨memory, .start, htogether, (List.append_nil _).symm⟩
  | @append ids added log hrun batch now failure ih =>
      rw [← List.append_assoc, List.length_append] at hroom
      obtain ⟨grown, hgrows, htogether, hall⟩ := ih (by omega)
      have hnext := htogether.same_nextId (by rw [hall]; omega)
      have hanswer : (log.append batch now failure).1 = (grown.append batch).1 := by
        rw [log.append_answer, grown.append_answer, hnext]
      refine ⟨(grown.append batch).2, ?_, htogether.append batch now failure, ?_⟩
      · rw [hanswer]
        exact .append hgrows batch
      · rw [grown.append_records, hall, hnext, List.append_assoc]
  | quiet hrun hquiet ih =>
      obtain ⟨grown, hgrows, htogether, hall⟩ := ih hroom
      exact ⟨grown, hgrows, htogether.quiet hquiet, hall⟩

/-- What is there never waits again. -/
theorem Together.not_waits_of_run {id : RecordId} {record : Record} (hfree : ¬ log.Waits id)
    (hfound : memory.fetch id = .found record) : ¬ later.Waits id := by
  obtain ⟨hstored, rfl⟩ := MemoryLog.mem_of_find (MemoryLog.find_of_fetch hfound)
  obtain ⟨written, waiting, hholds, hall⟩ := htogether.holds
    (Nat.lt_of_le_of_lt (List.length_append ▸ Nat.le_add_right _ _) hroom)
  rw [← hall] at hstored
  rw [← hall, List.append_assoc] at hroom
  obtain ⟨-, moved, left, hholds', hall'⟩ := hrun.holds hholds hroom
  unfold BufferedLog.Waits at hfree ⊢
  rw [hholds.pending] at hfree
  rw [hholds'.pending]
  obtain hstands | hwaits := List.mem_append.mp hstored
  · exact hholds'.not_waiting_of_written (by rwa [List.append_assoc, hall'])
      (List.mem_append_left moved hstands)
  · exact absurd (List.mem_map_of_mem hwaits) hfree

end Runs

end Provenance
