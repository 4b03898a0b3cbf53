import Provenance.Proofs.Log.Buffered
import Provenance.Record.Draft

/-! # Nothing is lost

Whatever happens to a log that began with an empty table, every identifier it answered with
belongs to one record, which waits in the buffer or stands in the table. A record that was
found once is found from then on, after closing and opening again as well.
-/

namespace Provenance.BufferedLog

/-- A log has kept everything that it was given: the identifiers it answered with, and the
    records that the batches were resolved to. -/
structure Intact (log : BufferedLog) (ids : List RecordId) (issued : List Record) : Prop where
  answered : ids = issued.map (·.id)
  consecutive : ids.map RecordId.toNat = List.range' 1 ids.length
  next : log.nextId.toNat = ids.length + 1
  counted : log.table.rows.length + log.pending.length = ids.length
  /-- A record is in one of two places, and in the table as it was. -/
  placed : ∀ record ∈ issued,
    (record ∈ log.pending ∧ log.table.get? record.id.key = none) ∨
      (record.id ∉ log.pending.map (·.id) ∧ log.table.load record.id = .ok (some record))
  /-- A look-up says that a record is not available yet if it still waits after the write that
      the look-up begins with. -/
  waiting_iff : ∀ id now failure, (log.fetch id now failure).1 = .ok .notYetAvailable ↔
    id ∈ (log.flushIfDue now failure).2.pending.map (·.id)
  found_iff : ∀ id now failure record, (log.fetch id now failure).1 = .ok (.found record) ↔
    record ∈ issued ∧ record.id = id ∧
      ((log.flushIfDue now failure).2.table.get? id.key).isSome
  notFound_iff : ∀ id now failure, (log.fetch id now failure).1 = .ok .notFound ↔
    id = ⟨0⟩ ∨ id ∉ ids
  /-- What is found stays found, whatever happens next. -/
  lasting : ∀ id now failure record, (log.fetch id now failure).1 = .ok (.found record) →
    ∀ more added later, Run (log.fetch id now failure).2 more added later →
      (issued ++ added).length < RecordId.bound → (∀ record ∈ added, record.Storable) →
        ∀ now failure, (later.fetch id now failure).1 = .ok (.found record)

variable {log : BufferedLog} {written waiting issued : List Record} {ids : List RecordId}
  {record : Record} {limits : BufferLimits}

theorem Holds.get?_of_waiting (hholds : log.Holds written waiting)
    (hroom : (written ++ waiting).length < RecordId.bound) (hmem : record ∈ waiting) :
    log.table.get? record.id.key = none := by
  rw [Table.get?_of_rows hholds.table, Option.map_eq_none_iff, List.find?_eq_none]
  intro other hstands hsame
  have hapart := hholds.not_waiting_of_written hroom hstands
  rw [of_decide_eq_true hsame] at hapart
  exact hapart (List.mem_map_of_mem hmem)

theorem Holds.isSome_get?_iff (hholds : log.Holds written waiting) {id : RecordId} :
    (log.table.get? id.key).isSome ↔ ∃ record ∈ written, record.id = id := by
  rw [Table.get?_of_rows hholds.table, Option.isSome_map, List.find?_isSome]
  simp

/-- A log that began with an empty table keeps everything, as long as there are keys and the
    records can be written down. -/
theorem intact_of_run (hrun : Run (openOn {} limits) ids issued log)
    (hroom : issued.length < RecordId.bound) (hstorable : ∀ record ∈ issued, record.Storable) :
    log.Intact ids issued := by
  obtain ⟨hanswered, written, waiting, hholds, rfl⟩ := hrun.holds_of_empty hroom
  have hcount : ids.length = (written ++ waiting).length := by rw [hanswered, List.length_map]
  have hword := Nat.lt_of_succ_lt (RecordId.lt_size_of_lt_bound hroom)
  constructor
  case answered => exact hanswered
  case consecutive =>
    rw [hcount, hanswered, List.map_map]
    exact hholds.numbered.map_toNat hword
  case next =>
    rw [hcount]
    exact hholds.toNat_nextId hroom
  case counted =>
    rw [hcount, hholds.table, hholds.pending, List.length_append]
    simp
  case placed =>
    intro record hmem
    rw [hholds.pending]
    obtain hstands | hwaits := List.mem_append.mp hmem
    · exact .inr ⟨hholds.not_waiting_of_written hroom hstands,
        hholds.load_of_written hroom hstorable hstands⟩
    · exact .inl ⟨hwaits, hholds.get?_of_waiting hroom hwaits⟩
  case waiting_iff =>
    intro id now failure
    obtain ⟨stands, left, hflushed, hall⟩ := hholds.exists_flushIfDue hroom now failure
    rw [← hall] at hroom hstorable
    rw [hflushed.pending]
    exact hflushed.lookUp_waiting_iff hroom hstorable
  case found_iff =>
    intro id now failure record
    obtain ⟨stands, left, hflushed, hall⟩ := hholds.exists_flushIfDue hroom now failure
    rw [← hall] at hroom hstorable hword ⊢
    rw [hflushed.isSome_get?_iff]
    apply (hflushed.lookUp_found_iff hroom hstorable).trans
    constructor
    · rintro ⟨hmem, hnamed⟩
      exact ⟨List.mem_append_left _ hmem, hnamed, record, hmem, hnamed⟩
    · rintro ⟨hmem, hnamed, other, hstands, hsame⟩
      rw [hflushed.numbered.eq_of_id_eq hword hmem (List.mem_append_left _ hstands)
        (hnamed.trans hsame.symm)]
      exact ⟨hstands, hsame⟩
  case notFound_iff =>
    intro id now failure
    obtain ⟨stands, left, hflushed, hall⟩ := hholds.exists_flushIfDue hroom now failure
    rw [← hall] at hroom hstorable hanswered
    rw [hanswered]
    apply (hflushed.lookUp_notFound_iff hroom hstorable).trans
    refine ⟨.inr, fun houtside => ?_⟩
    obtain hzero | hmissing := houtside
    · exact (hflushed.outside_iff hroom).mp (.inl hzero)
    · exact hmissing
  case lasting =>
    intro id now failure record hfound more added later hrun hroom' hstorable' now' failure'
    exact hholds.fetch_found_lasts hroom hstorable hfound hrun hroom' hstorable' now' failure'

/-- A record that waits through a write that fails, and is written when the log is closed. -/
theorem intact_of_run_reopened :
    let filled := ((openOn {} {}).append [Draft.stringLiteral "a"] 0).2
    let failed := (filled.flush (some .duplicateKey)).2
    (openOn failed.close {}).Intact [⟨1⟩]
      [{ kind := .stringLiteral, args := Operands.empty.insert "value" { value := .str "a" },
         result := .str "a", id := ⟨1⟩ }] := by
  intro filled failed
  have hwritten : failed.flush.1 = .ok 1 := rfl
  refine intact_of_run (((Run.start.append [Draft.stringLiteral "a"] 0 none).quiet
    (.flush (some .duplicateKey))).quiet (.reopen {} hwritten)) (by decide) ?_
  intro record hmem
  cases List.mem_singleton.mp hmem
  exact ⟨by decide, by decide, by decide⟩

end Provenance.BufferedLog
