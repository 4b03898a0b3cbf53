import Provenance.Proofs.Log.Buffered
import Provenance.Proofs.Log.Memory
import Provenance.Record.Draft

/-! # Two kinds of logs, one behaviour

A log in memory and a buffered log that get the same batches have the same records. The one
over a table may say for a while that a record is not available yet; once its buffer is
written, nobody can tell the two apart.
-/

namespace Provenance

namespace MemoryLog

variable {log : MemoryLog}

theorem append_records (log : MemoryLog) (batch : List Draft) :
    (log.append batch).2.records =
      log.records ++ accepted (resolveBatch log.nextId batch) := by
  unfold append
  split <;> rename_i hresolved <;> rw [hresolved]
  · exact (List.append_nil _).symm
  · rfl

theorem append_answer (log : MemoryLog) (batch : List Draft) :
    (log.append batch).1 = appendAnswer (resolveBatch log.nextId batch) := by
  unfold append
  split <;> rename_i hresolved <;> rw [hresolved] <;> rfl

theorem Reached.fetch_eq (hreached : log.Reached) (id : RecordId) :
    log.fetch id =
      match log.find id with
      | some record => .found record
      | none => .notFound :=
  Except.ok.inj (congrArg Prod.fst (hreached.settled id 0))

end MemoryLog

/-- The pairs of logs that get the same batches, whatever else happens to the buffered one. -/
inductive Together : MemoryLog → BufferedLog → Prop where
  | start (limits : BufferLimits) : Together {} (.openOn {} limits)
  | append {memory : MemoryLog} {log : BufferedLog} (htogether : Together memory log)
      (batch : List Draft) (now : Nat) (failure : Option LogError) :
      Together (memory.append batch).2 (log.append batch now failure).2
  | quiet {memory : MemoryLog} {log later : BufferedLog} (htogether : Together memory log)
      (hquiet : log.Quiet later) : Together memory later

/-- The logs answer alike, except that the buffered one may have to write its buffer first. -/
structure Alike (memory : MemoryLog) (log : BufferedLog) : Prop where
  append : ∀ batch now failure, (log.append batch now failure).1 = (memory.append batch).1
  fetch : ∀ id now failure, (log.fetch id now failure).1 = .ok .notYetAvailable ∨
    (log.fetch id now failure).1 = .ok (memory.fetch id)
  /-- The buffer can be written. -/
  flush : ∃ later, log.flush = (.ok log.buffer.length, later)
  flushed : ∀ failure count later, log.flush failure = (.ok count, later) →
    (∀ id now failure, (later.fetch id now failure).1 = .ok (memory.fetch id)) ∧
      (∀ id now, (RecordLog.has id now later).1 = (RecordLog.has id now memory).1) ∧
      ∀ key, later.locate key = memory.locate key

namespace Together

variable {memory : MemoryLog} {log : BufferedLog}

theorem reached (htogether : Together memory log) : memory.Reached := by
  induction htogether with
  | start => exact .empty
  | append _ batch _ _ ih => exact .append ih batch
  | quiet _ _ ih => exact ih

theorem nextId_eq (hreached : memory.Reached) {written waiting : List Record}
    (hholds : log.Holds written waiting) (hall : written ++ waiting = memory.records) :
    log.nextId = memory.nextId := by
  rw [hholds.next, hreached.numbered_and_next.2, hall]

/-- The table and the buffer have the records that are in memory. -/
theorem holds (htogether : Together memory log) (hroom : memory.records.length < RecordId.bound) :
    ∃ written waiting, log.Holds written waiting ∧ written ++ waiting = memory.records := by
  induction htogether with
  | start limits => exact ⟨[], [], BufferedLog.holds_openOn rfl .nil limits, rfl⟩
  | @append memory log htogether batch now failure ih =>
      rw [memory.append_records] at hroom ⊢
      rw [List.length_append] at hroom
      obtain ⟨written, waiting, hholds, hall⟩ := ih (by omega)
      rw [← nextId_eq htogether.reached hholds hall] at hroom ⊢
      have hextended : written ++ (waiting ++ accepted (resolveBatch log.nextId batch)) =
          memory.records ++ accepted (resolveBatch log.nextId batch) := by
        rw [← List.append_assoc, hall]
      obtain hstill | hflushed := hholds.append batch now failure
        (by rwa [hextended, List.length_append])
      · exact ⟨written, _, hstill, hextended⟩
      · exact ⟨_, [], hflushed, by rwa [List.append_nil]⟩
  | @quiet memory log later htogether hquiet ih =>
      obtain ⟨written, waiting, hholds, hall⟩ := ih hroom
      obtain hstill | hflushed := hholds.quiet (by rwa [hall]) hquiet
      · exact ⟨written, waiting, hstill, hall⟩
      · exact ⟨written ++ waiting, [], hflushed, by rwa [List.append_nil]⟩

section Records

variable {written waiting : List Record} {id : RecordId}
    (hreached : memory.Reached) (hholds : log.Holds written waiting)
    (hall : written ++ waiting = memory.records)
    (hroom : memory.records.length < RecordId.bound)
    (hstorable : ∀ record ∈ memory.records, record.Storable)

include hreached hholds hall hroom hstorable

/-- The buffered log knows what is in memory, or that it has yet to be written. -/
theorem lookUp_cases (id : RecordId) :
    (id ∈ waiting.map (·.id) ∧ log.lookUp id = .ok .notYetAvailable) ∨
      log.lookUp id = .ok (memory.fetch id) := by
  rw [hreached.fetch_eq]
  rw [← hall] at hroom hstorable
  have hword := Nat.lt_of_succ_lt (RecordId.lt_size_of_lt_bound hroom)
  have hfind : memory.find id = (written ++ waiting).find? (·.id = id) := by
    rw [MemoryLog.find, hall]
  obtain hwaits | ⟨record, hmem, hnamed, hfound⟩ | ⟨hmissing, hnothing⟩ :=
    hholds.lookUp_cases hroom hstorable id
  · exact .inl hwaits
  · have hstored : memory.find id = some record := by
      rw [hfind]
      exact (hholds.numbered.find?_eq_some_iff hword).mpr ⟨List.mem_append_left _ hmem, hnamed⟩
    rw [hfound, hstored]
    exact .inr rfl
  · have habsent : memory.find id = none := by
      rw [hfind, List.find?_eq_none]
      intro record hmem hsame
      exact hmissing (List.mem_map.mpr ⟨record, hmem, of_decide_eq_true hsame⟩)
    rw [hnothing, habsent]
    exact .inr rfl

theorem lookUp_of_empty (hempty : waiting = []) (id : RecordId) :
    log.lookUp id = .ok (memory.fetch id) := by
  obtain ⟨hwaits, -⟩ | hanswer := lookUp_cases hreached hholds hall hroom hstorable id
  · rw [hempty] at hwaits
    cases hwaits
  · exact hanswer

end Records

/-- What two logs with the same batches answer. -/
theorem alike (htogether : Together memory log) (hroom : memory.records.length < RecordId.bound)
    (hstorable : ∀ record ∈ memory.records, record.Storable) : Alike memory log := by
  have hreached := htogether.reached
  obtain ⟨written, waiting, hholds, hall⟩ := htogether.holds hroom
  have hroom' : (written ++ waiting).length < RecordId.bound := by rwa [hall]
  constructor
  case append =>
    intro batch now failure
    rw [log.append_answer, memory.append_answer, nextId_eq hreached hholds hall]
  case fetch =>
    intro id now failure
    obtain ⟨stands, left, hflushed, hsame⟩ := hholds.exists_flushIfDue hroom' now failure
    exact (lookUp_cases hreached hflushed (hsame.trans hall) hroom hstorable id).imp_left And.right
  case flush =>
    obtain ⟨table, -, hflushed⟩ := hholds.flush_eq hroom'
    exact ⟨_, hflushed⟩
  case flushed =>
    intro failure count later hsucceeds
    have hflushed := hholds.flush_ok hroom' hsucceeds
    have hfetched : ∀ id now failure, (later.fetch id now failure).1 = .ok (memory.fetch id) := by
      intro id now failure
      have hall' : (written ++ waiting) ++ [] = memory.records := by rwa [List.append_nil]
      obtain hstill | hagain := hflushed.flushIfDue (by rwa [hall']) now failure
      · exact lookUp_of_empty hreached hstill hall' hroom hstorable rfl id
      · exact lookUp_of_empty hreached hagain (by rwa [List.append_nil]) hroom hstorable rfl id
    refine ⟨hfetched, ?_, ?_⟩
    · intro id now
      rw [RecordLog.has_eq_map, RecordLog.has_eq_map]
      exact congrArg _ (hfetched id now none)
    · intro key
      rw [BufferedLog.locate, Table.locate_of_rows hflushed.table, hall, hreached.locate_eq]

/-- A batch that is refused and one that is accepted, with a write that fails in between. -/
theorem alike_after_refusal :
    let refused : Draft :=
      { kind := .identifier
        args := Operands.empty.insert "value" { tracking := some (.stored ⟨7⟩) } }
    let memory := ((MemoryLog.append [refused] {}).2.append [Draft.stringLiteral "a"]).2
    let log := ((BufferedLog.append [refused] 0 (.openOn {} {})).2.append
      [Draft.stringLiteral "a"] 200 (some .duplicateKey)).2
    Alike memory log := by
  intro refused memory log
  refine alike (((Together.start {}).append [refused] 0 none).append [Draft.stringLiteral "a"] 200
    (some .duplicateKey)) (by decide) ?_
  intro record hmem
  cases List.mem_singleton.mp hmem
  exact ⟨by decide, by decide, by decide⟩

end Together

end Provenance
