import Provenance.Proofs.Log.Buffered
import Provenance.Proofs.Log.Keys

/-! # What a buffered log holds

A record has its row from the moment it is appended: first it waits, then it is written. Writes
move rows from the buffer to the table, and appends add those of their records. Nothing else
changes what a log holds.
-/

namespace Provenance.BufferedLog

/-- The rows of a log: those that are written, and those of the records that wait. -/
def rows (log : BufferedLog) : List Row := log.table.rows ++ log.pending.map Row.ofRecord

/-- A log that holds what another one holds, with the rows of some records besides, and that has
    given out as many identifiers more. -/
structure Gains (log : BufferedLog) (records : List Record) (later : BufferedLog) : Prop where
  rows : later.rows.Perm (log.rows ++ records.map Row.ofRecord)
  next : later.nextId = log.nextId.offset records.length

variable {log next later : BufferedLog} {records more : List Record} {batch : List Draft}
  {now : Nat} {failure : Option LogError} {error : LogError}

theorem Gains.refl (log : BufferedLog) : log.Gains [] log where
  rows := by rw [List.map_nil, List.append_nil]
  next := (RecordId.offset_zero _).symm

theorem Gains.trans (hfirst : log.Gains records next) (hsecond : next.Gains more later) :
    log.Gains (records ++ more) later where
  rows := by
    rw [List.map_append, ← List.append_assoc]
    exact hsecond.rows.trans (hfirst.rows.append_right _)
  next := by rw [hsecond.next, hfirst.next, RecordId.offset_add, List.length_append]

/-- A write that succeeds or fails changes nothing about what the log holds. -/
theorem gains_flush (log : BufferedLog) (failure : Option LogError) :
    log.Gains [] (log.flush failure).2 := by
  unfold flush
  split
  · exact .refl log
  split
  · exact .refl log
  split
  · rename_i table hinserted
    have hall := Table.rows_of_insertAll? hinserted
    refine ⟨?_, (RecordId.offset_zero _).symm⟩
    rw [List.map_nil, List.append_nil]
    simpa [rows, pending, Function.comp_def] using hall
  · exact .refl log

theorem gains_flushIfDue (log : BufferedLog) (now : Nat) (failure : Option LogError) :
    log.Gains [] (log.flushIfDue now failure).2 := by
  obtain hsame | hflushed := log.flushIfDue_cases now failure
  · rw [hsame]
    exact .refl log
  · rw [hflushed]
    exact log.gains_flush failure

theorem gains_append (now : Nat) (failure : Option LogError)
    (hresolved : resolveBatch log.nextId batch = .ok records) :
    log.Gains records (log.append batch now failure).2 := by
  unfold append
  split
  · rename_i hempty
    rw [List.isEmpty_iff.mp hempty] at hresolved
    cases hresolved
    exact .refl log
  · let queued : BufferedLog := { log with
      buffer := log.buffer ++ records.map (Waiting.mk · now)
      nextId := nextAfter log.nextId records }
    have hwaits : log.Gains records queued := by
      refine ⟨?_, ?_⟩
      · simp [queued, rows, pending, Function.comp_def]
      · rw [length_of_resolveBatch hresolved, ← nextAfter_of_resolveBatch hresolved]
    have hwritten := hwaits.trans (queued.gains_flushIfDue now failure)
    rw [List.append_nil] at hwritten
    simpa only [hresolved] using hwritten

theorem append_refused (hrefused : (log.append batch now failure).1 = .error error) :
    (∃ cause, error = .invalidReference cause) ∧ (log.append batch now failure).2 = log := by
  unfold append at hrefused ⊢
  split
  · rw [if_pos ‹_›] at hrefused
    cases hrefused
  · rw [if_neg ‹_›] at hrefused
    cases hresolved : resolveBatch log.nextId batch with
    | error cause =>
        rw [hresolved] at hrefused
        cases hrefused
        exact ⟨⟨cause, rfl⟩, rfl⟩
    | ok records =>
        rw [hresolved] at hrefused
        cases hrefused

theorem buffer_flush {count : Nat} (hwritten : log.flush.1 = .ok count) :
    log.flush.2.buffer = [] := by
  unfold flush at hwritten ⊢
  split
  · exact List.isEmpty_iff.mp ‹_›
  · rw [if_neg ‹_›] at hwritten
    dsimp only at hwritten ⊢
    split at hwritten
    · rfl
    · cases hwritten

/-- A write that the table does not fail succeeds if all keys differ. -/
theorem flush_ok (hdistinct : (log.rows.map Row.key).Nodup) :
    log.flush.1 = .ok log.buffer.length := by
  have hkeys : log.rows =
      log.table.rows ++ log.buffer.map fun waiting => .ofRecord waiting.record := by
    simp [rows, pending, Function.comp_def]
  rw [hkeys] at hdistinct
  obtain ⟨later, hinserted⟩ := Table.exists_insertAll? hdistinct
  unfold flush
  split
  · rename_i hempty
    rw [List.isEmpty_iff.mp hempty]
    rfl
  · simp only [hinserted]

end Provenance.BufferedLog
