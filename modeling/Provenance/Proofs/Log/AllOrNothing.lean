import Provenance.Proofs.Log.Equivalence
import Provenance.Proofs.Record.Acceptance

/-! # All of a batch, or nothing

An append looks at its whole batch before it changes anything. If a reference is bad the log
stays as it is, and goes on with the same identifier; otherwise every draft of the batch has
become a record, whatever happens to the write that may follow.
-/

namespace Provenance

/-- What an append does to a log that gives out `first` next. `Adds` says how a log takes up
    records. -/
structure AllOrNothing {σ : Type} (first : RecordId) (batch : List Draft) (log : σ)
    (Adds : List Record → σ → Prop) (result : Except LogError (List RecordId) × σ) : Prop where
  accepted_iff : (∃ ids, result.1 = .ok ids) ↔ Acceptable first batch
  refused : ∀ error, result.1 = .error error →
    (∃ cause, error = .invalidReference cause ∧ RefusedFor first batch cause) ∧ result.2 = log
  accepted : ∀ ids, result.1 = .ok ids → ids = (List.range batch.length).map first.offset ∧
    Adds (numberedBatch first 0 batch) result.2

theorem allOrNothing_of_resolveBatch {σ : Type} {first : RecordId} {batch : List Draft} {log : σ}
    {Adds : List Record → σ → Prop} {result : Except LogError (List RecordId) × σ}
    (hroom : first.toNat + batch.length < UInt64.size)
    (hanswer : result.1 = appendAnswer (resolveBatch first batch))
    (hunchanged : ∀ cause, resolveBatch first batch = .error cause → result.2 = log)
    (hadds : ∀ records, resolveBatch first batch = .ok records → Adds records result.2) :
    AllOrNothing first batch log Adds result := by
  cases hresolved : resolveBatch first batch with
  | error cause =>
      rw [hresolved] at hanswer
      have hrefusal := (resolveBatch_error_iff hroom).mp hresolved
      constructor
      case accepted_iff =>
        rw [hanswer]
        constructor
        · rintro ⟨ids, ⟨⟩⟩
        intro hacceptable
        rw [(resolveBatch_ok_iff hroom).mpr ⟨hacceptable, rfl⟩] at hresolved
        cases hresolved
      case refused =>
        intro error hshown
        rw [hanswer] at hshown
        cases hshown
        exact ⟨⟨cause, rfl, hrefusal⟩, hunchanged cause hresolved⟩
      case accepted =>
        intro ids hshown
        rw [hanswer] at hshown
        cases hshown
  | ok records =>
      rw [hresolved] at hanswer
      obtain ⟨hacceptable, hnamed⟩ := (resolveBatch_ok_iff hroom).mp hresolved
      constructor
      case accepted_iff => exact ⟨fun _ => hacceptable, fun _ => ⟨_, hanswer⟩⟩
      case refused =>
        intro error hshown
        rw [hanswer] at hshown
        cases hshown
      case accepted =>
        intro ids hshown
        rw [hanswer] at hshown
        cases hshown
        exact ⟨ids_of_resolveBatch hresolved, hnamed ▸ hadds records hresolved⟩

namespace MemoryLog

/-- A log has taken up records behind those of another one. -/
structure Adds (log : MemoryLog) (added : List Record) (later : MemoryLog) : Prop where
  records : later.records = log.records ++ added
  next : later.nextId = log.nextId.offset added.length
  found : ∀ record ∈ added, later.fetch record.id = .found record

variable {log : MemoryLog} {batch : List Draft} {records : List Record}

theorem Reached.adds (hreached : log.Reached)
    (hroom : log.records.length + 1 + batch.length < UInt64.size)
    (hresolved : resolveBatch log.nextId batch = .ok records) :
    log.Adds records (log.append batch).2 := by
  have hall : (log.append batch).2.records = log.records ++ records := by
    rw [append_records, hresolved]
    rfl
  have hlength := length_of_resolveBatch hresolved
  constructor
  case records => exact hall
  case next =>
    rw [hlength, ← nextAfter_of_resolveBatch hresolved]
    unfold MemoryLog.append
    rw [hresolved]
  case found =>
    intro record hmem
    have hnumbered := (hreached.append batch).numbered_and_next.1
    have hword : (log.append batch).2.records.length < UInt64.size := by
      rw [hall, List.length_append, hlength]
      omega
    have hthere : record ∈ (log.append batch).2.records := hall ▸ List.mem_append_right _ hmem
    exact fetch_eq_found ((hnumbered.find?_eq_some_iff hword).mpr ⟨hthere, rfl⟩)

end MemoryLog

namespace BufferedLog

/-- Whether a log has a record, in its buffer or in its table. -/
def Has (log : BufferedLog) (record : Record) : Prop :=
  record ∈ log.pending ∨ log.table.get? record.id.key = some (.ofRecord record)

/-- The number of records, waiting or written. -/
def count (log : BufferedLog) : Nat := log.table.rows.length + log.pending.length

/-- A log has taken up records, and has kept those of another one. -/
structure Adds (log : BufferedLog) (added : List Record) (later : BufferedLog) : Prop where
  next : later.nextId = log.nextId.offset added.length
  kept : ∀ record, log.Has record → later.Has record
  taken : ∀ record ∈ added, later.Has record
  count : later.count = log.count + added.length

variable {log : BufferedLog} {batch : List Draft} {records : List Record}

/-- A write that succeeds or fails loses no record, and makes none. -/
theorem adds_flush (log : BufferedLog) (failure : Option LogError) :
    log.Adds [] (log.flush failure).2 := by
  have hunchanged : log.Adds [] log :=
    ⟨(RecordId.offset_zero _).symm, fun _ hhas => hhas, List.forall_mem_nil _, rfl⟩
  unfold flush
  split
  · exact hunchanged
  split
  · exact hunchanged
  split
  · rename_i table hinserted
    obtain ⟨hplaced, hlength, hkept⟩ := Table.get?_of_insertAll? hinserted
    refine ⟨(RecordId.offset_zero _).symm, fun record hhas => .inr ?_, List.forall_mem_nil _, ?_⟩
    · obtain hwaits | hstands := hhas
      · obtain ⟨waiting, hmem, rfl⟩ := List.mem_map.mp hwaits
        exact hplaced _ (List.mem_map_of_mem hmem)
      · exact hkept _ _ hstands
    · simp [count, pending, hlength]
  · exact hunchanged

theorem adds_flushIfDue (log : BufferedLog) (now : Nat) (failure : Option LogError) :
    log.Adds [] (log.flushIfDue now failure).2 := by
  unfold flushIfDue
  split
  · exact log.adds_flush failure
  · exact ⟨(RecordId.offset_zero _).symm, fun _ hhas => hhas, List.forall_mem_nil _, rfl⟩

theorem adds_append (now : Nat) (failure : Option LogError)
    (hresolved : resolveBatch log.nextId batch = .ok records) :
    log.Adds records (log.append batch now failure).2 := by
  unfold append
  split
  · rename_i hempty
    rw [List.isEmpty_iff.mp hempty] at hresolved
    cases hresolved
    exact ⟨(RecordId.offset_zero _).symm, fun _ hhas => hhas, List.forall_mem_nil _, rfl⟩
  · let queued : BufferedLog := { log with
      buffer := log.buffer ++ records.map (Waiting.mk · now)
      nextId := nextAfter log.nextId records }
    have hwaits : queued.pending = log.pending ++ records := by
      simp [queued, pending, Function.comp_def]
    have hwritten := queued.adds_flushIfDue now failure
    simp only [hresolved]
    constructor
    case next =>
      rw [length_of_resolveBatch hresolved, ← nextAfter_of_resolveBatch hresolved]
      exact hwritten.next.trans (RecordId.offset_zero _)
    case kept =>
      intro record hhas
      refine hwritten.kept record (hhas.imp_left fun hbefore => ?_)
      rw [hwaits]
      exact List.mem_append_left _ hbefore
    case taken =>
      intro record hmem
      refine hwritten.kept record (.inl ?_)
      rw [hwaits]
      exact List.mem_append_right _ hmem
    case count =>
      refine hwritten.count.trans ?_
      rw [List.length_nil, count, hwaits, List.length_append, count]
      exact (Nat.add_assoc _ _ _).symm

end BufferedLog

/-- An append to a log of either kind takes up all of its batch or nothing. A log in memory
    that has given out as many identifiers as it has records, and a buffered one in any state,
    need only have room for the identifiers of the batch. -/
theorem append_all_or_nothing {memory : MemoryLog} (hreached : memory.Reached) (log : BufferedLog)
    (batch : List Draft) (now : Nat) (failure : Option LogError)
    (hroom : memory.records.length + 1 + batch.length < UInt64.size)
    (hspace : log.nextId.toNat + batch.length < UInt64.size) :
    memory.nextId.toNat = memory.records.length + 1 ∧
      AllOrNothing memory.nextId batch memory memory.Adds (memory.append batch) ∧
      AllOrNothing log.nextId batch log log.Adds (log.append batch now failure) := by
  have hnext := hreached.toNat_nextId (by omega)
  refine ⟨hnext, ?_, ?_⟩
  · refine allOrNothing_of_resolveBatch (by omega) (memory.append_answer batch) ?_
      fun records hresolved => hreached.adds hroom hresolved
    intro cause hresolved
    simp [MemoryLog.append, hresolved]
  · refine allOrNothing_of_resolveBatch hspace (log.append_answer batch now failure) ?_
      fun records hresolved => BufferedLog.adds_append now failure hresolved
    intro cause hresolved
    unfold BufferedLog.append
    split
    · rfl
    · simp [hresolved]

/-- A draft that refers to itself takes back the one before it, of which nothing is left; without
    it the batch is taken up, although the write behind it fails. -/
theorem append_all_or_nothing_late :
    let memory := (MemoryLog.append [Draft.stringLiteral "a"] {}).2
    let log := (BufferedLog.append [Draft.stringLiteral "a"] 0 (.openOn {} {})).2
    let sum := Draft.concat ⟨.str "a", some (.stored ⟨1⟩)⟩ ⟨.str "b", none⟩
    let loop := Draft.concat ⟨.str "ab", some (.inBatch 0)⟩ ⟨.str "?", some (.inBatch 1)⟩
    memory.append [sum, loop] = (.error (.invalidReference (.batch 1 1)), memory) ∧
    log.append [sum, loop] 200 (some .duplicateKey) =
      (.error (.invalidReference (.batch 1 1)), log) ∧
    log.Adds (numberedBatch ⟨2⟩ 0 [sum]) (log.append [sum] 200 (some .duplicateKey)).2 := by
  intro memory log sum loop
  have hreached : memory.Reached := .append .empty _
  obtain ⟨-, hfirst, hsecond⟩ := append_all_or_nothing hreached log [sum, loop] 200
    (some .duplicateKey) (by decide) (by decide)
  obtain ⟨-, -, hthird⟩ := append_all_or_nothing hreached log [sum] 200 (some .duplicateKey)
    (by decide) (by decide)
  have hanswer : (memory.append [sum, loop]).1 = .error (.invalidReference (.batch 1 1)) := by rfl
  have hanswer' : (log.append [sum, loop] 200 (some .duplicateKey)).1 =
      .error (.invalidReference (.batch 1 1)) := by rfl
  exact ⟨Prod.ext hanswer (hfirst.refused _ hanswer).2,
    Prod.ext hanswer' (hsecond.refused _ hanswer').2, (hthird.accepted [⟨2⟩] (by rfl)).2⟩

end Provenance
