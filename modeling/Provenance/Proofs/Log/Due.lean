import Provenance.Proofs.Log.Buffered
import Provenance.Record.Draft

/-! # Buffers that are due

A buffer can stay due, after a write that failed or a pause. The next append or look-up writes it
before it answers. Looking up a location does not: it shows the table as it stands.
-/

namespace Provenance.BufferedLog

/-- Whether a log has written everything that waited in another. -/
structure CaughtUp (log later : BufferedLog) : Prop where
  emptied : later.buffer = []
  durable : ∀ record ∈ log.pending, later.table.load record.id = .ok (some record)
  located : ∀ record ∈ log.pending, ∀ key, record.locationKey = some key →
    record.id ∈ later.locate key

variable {log later : BufferedLog} {written waiting issued : List Record} {ids : List RecordId}
  {record : Record} {limits : BufferLimits} {now : Nat}

theorem Holds.locate_iff (hholds : log.Holds written waiting) {key : String} {id : RecordId} :
    id ∈ log.locate key ↔ ∃ record ∈ written, record.locationKey = some key ∧ record.id = id := by
  rw [locate, Table.locate_of_rows hholds.table]
  simp [and_assoc]

/-- Records that stand in the table of a log with an empty buffer have been caught up with. -/
theorem Holds.caughtUp (hholds : later.Holds written [])
    (hroom : written.length < RecordId.bound) (hstorable : ∀ record ∈ written, record.Storable)
    (hmoved : ∀ record ∈ log.pending, record ∈ written) : CaughtUp log later where
  emptied := List.map_eq_nil_iff.mp hholds.pending
  durable record hmem := by
    apply hholds.load_of_written
    · simpa using hroom
    · simpa using hstorable
    · exact hmoved record hmem
  located record hmem key hlocated :=
    hholds.locate_iff.mpr ⟨record, hmoved record hmem, hlocated, rfl⟩

/-- A buffer that is due stays due when records are added. -/
theorem isDue_of_more {more : List Waiting} {nextId : RecordId} (hdue : log.isDue now = true) :
    isDue { log with buffer := log.buffer ++ more, nextId } now = true := by
  unfold isDue at hdue ⊢
  rw [Bool.or_eq_true] at hdue ⊢
  cases hdue with
  | inl hfull =>
      left
      have henough := of_decide_eq_true hfull
      simp only [List.length_append, decide_eq_true_eq]
      omega
  | inr hhold =>
      right
      cases hbuffer : log.buffer with
      | nil => simp [hbuffer] at hhold
      | cons oldest rest => simpa [hbuffer] using hhold

section Due

variable (hholds : log.Holds written waiting) (hdue : log.isDue now = true)

include hholds hdue

theorem Holds.flushIfDue_of_due (hroom : (written ++ waiting).length < RecordId.bound) :
    (log.flushIfDue now).2.Holds (written ++ waiting) [] := by
  unfold BufferedLog.flushIfDue
  rw [if_pos hdue]
  obtain ⟨table, -, hflushed⟩ := hholds.flush_eq hroom
  rw [hflushed]
  exact hholds.flush_ok hroom hflushed

/-- An append to a log that is due writes what waited, and its own records with it. -/
theorem Holds.append_of_due {batch : List Draft} {records : List Record}
    (hresolved : resolveBatch log.nextId batch = .ok records) (hgiven : batch ≠ [])
    (hroom : (written ++ (waiting ++ records)).length < RecordId.bound) :
    (log.append batch now).2.Holds (written ++ (waiting ++ records)) [] := by
  unfold BufferedLog.append
  rw [if_neg (by simpa using hgiven), hresolved]
  exact (hholds.enqueue hresolved).flushIfDue_of_due (isDue_of_more hdue) hroom

end Due

/-- A log that is due, and whose records can be written down, catches up when a batch is accepted
    or a record looked up. The look-up sees what waited until then. A location key does not: the
    records that wait are missing from every answer, and the log stays as it is. -/
theorem due_caught_up (hrun : Run (openOn {} limits) ids issued log)
    (hroom : issued.length < RecordId.bound) (hstorable : ∀ record ∈ issued, record.Storable)
    (now : Nat) (hdue : log.isDue now = true) :
    (∀ batch records, batch ≠ [] → resolveBatch log.nextId batch = .ok records →
      (issued ++ records).length < RecordId.bound → (∀ record ∈ records, record.Storable) →
        (log.append batch now).1 = .ok (records.map (·.id)) ∧
          CaughtUp log (log.append batch now).2) ∧
    (∀ id, CaughtUp log (log.fetch id now).2 ∧ CaughtUp log (RecordLog.has id now log).2) ∧
    (∀ record ∈ log.pending, (log.fetch record.id now).1 = .ok (.found record) ∧
      (RecordLog.has record.id now log).1 = .ok true) ∧
    ∀ record ∈ log.pending, ∀ key, record.id ∉ log.locate key := by
  obtain ⟨hanswered, written, waiting, hholds, rfl⟩ := hrun.holds_of_empty hroom
  have hflushed := hholds.flushIfDue_of_due hdue hroom
  have hmoved : ∀ record ∈ log.pending, record ∈ written ++ waiting := by
    intro record hmem
    rw [hholds.pending] at hmem
    exact List.mem_append_right written hmem
  have hcaught : CaughtUp log (log.flushIfDue now).2 := hflushed.caughtUp hroom hstorable hmoved
  have hfound : ∀ record ∈ log.pending, (log.fetch record.id now).1 = .ok (.found record) := by
    intro record hmem
    apply hflushed.lookUp_of_written
    · simpa using hroom
    · simpa using hstorable
    · exact hmoved record hmem
  refine ⟨?_, ?_, ?_, ?_⟩
  · intro batch records hgiven hresolved hroom' hstorable'
    have hlater := hholds.append_of_due hdue hresolved hgiven (by simpa using hroom')
    rw [append_answer, hresolved]
    refine ⟨rfl, hlater.caughtUp (by simpa using hroom') ?_ ?_⟩
    · rw [← List.append_assoc]
      exact List.forall_mem_append.mpr ⟨hstorable, hstorable'⟩
    · intro record hmem
      rw [← List.append_assoc]
      exact List.mem_append_left records (hmoved record hmem)
  · intro id
    refine ⟨hcaught, ?_⟩
    rw [RecordLog.has_snd]
    exact hcaught
  · intro record hmem
    refine ⟨hfound record hmem, ?_⟩
    rw [RecordLog.has_eq_map]
    exact congrArg (Except.map _) (hfound record hmem)
  · intro record hmem key hlisted
    obtain ⟨other, hstands, -, hsame⟩ := hholds.locate_iff.mp hlisted
    rw [hholds.pending] at hmem
    apply hholds.not_waiting_of_written hroom hstands
    rw [hsame]
    exact List.mem_map_of_mem hmem

/-- A literal at the start of a file. -/
def locatedDraft : Draft where
  kind := .stringLiteral
  staticArgs := { location := some ⟨"app.js", ⟨1, 0⟩, ⟨1, 9⟩⟩ }
  result := .str "x"

/-- A log whose first write failed, so that its record still waits. -/
def failedLog : BufferedLog :=
  ((openOn {} { maxAge := 0 }).append [locatedDraft] 0 (some .duplicateKey)).2

theorem failedLog_run :
    Run (openOn {} { maxAge := 0 }) [⟨1⟩] failedLog.pending failedLog :=
  Run.start.append [locatedDraft] 0 (some .duplicateKey)

theorem due_caught_up_failed :
    CaughtUp failedLog (failedLog.fetch ⟨1⟩ 0).2 ∧
      (failedLog.append [Draft.stringLiteral "a"] 0).1 = .ok [⟨2⟩] ∧
      CaughtUp failedLog (failedLog.append [Draft.stringLiteral "a"] 0).2 := by
  have hstorable : ∀ record ∈ failedLog.pending, record.Storable := by
    intro record hmem
    cases List.mem_singleton.mp hmem
    decide
  obtain ⟨happended, hfetched, -, -⟩ :=
    due_caught_up failedLog_run (by decide) hstorable 0 (by decide)
  obtain ⟨hanswer, hcaught⟩ :=
    happended [Draft.stringLiteral "a"] _ (by decide) rfl (by decide) <| by
    intro record hmem
    cases List.mem_singleton.mp hmem
    decide
  exact ⟨(hfetched ⟨1⟩).1, hanswer, hcaught⟩

/-- The log is due and its record can be written, but the key of its location leads nowhere. -/
theorem due_not_located :
    (∃ ids issued, Run (openOn {} { maxAge := 0 }) ids issued failedLog) ∧
      failedLog.isDue 0 = true ∧ failedLog.flush.1 = .ok 1 ∧
      failedLog.pending.map (·.locationKey) = [some "app.js:1:0"] ∧
      failedLog.locate "app.js:1:0" = [] ∧
      failedLog.flush.2.locate "app.js:1:0" = [⟨1⟩] :=
  ⟨⟨_, _, failedLog_run⟩, by decide, rfl, by decide, by decide, by decide⟩

end Provenance.BufferedLog
