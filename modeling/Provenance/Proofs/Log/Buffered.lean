import Provenance.Log.Buffered
import Provenance.Proofs.Log.Table

/-! # Buffered logs, as they can be reached

The records that a log has numbered are those in its table followed by those in its buffer. A
write moves the whole buffer to the end of the table, and a write that fails moves nothing; so
no step loses a record, doubles one or changes one, and what can be fetched stays.
-/

namespace Provenance

/-- What a batch gives that is accepted. A refused batch gives nothing. -/
def accepted {ε α : Type} : Except ε (List α) → List α
  | .ok given => given
  | .error _ => []

/-- What an append answers, given what its batch was resolved to. -/
def appendAnswer : Except ReferenceError (List Record) → Except LogError (List RecordId)
  | .ok records => .ok (records.map (·.id))
  | .error cause => .error (.invalidReference cause)

theorem RecordLog.has_eq_map [RecordLog σ] (id : RecordId) (now : Nat) (log : σ) :
    (RecordLog.has id now log).1 = (RecordLog.fetch id now log).1.map fun
      | .found _ => true
      | _ => false := by
  unfold RecordLog.has
  cases RecordLog.fetch id now log with
  | mk answer after =>
      cases answer with
      | error e => rfl
      | ok fetched => cases fetched <;> rfl

theorem RecordLog.has_snd [RecordLog σ] (id : RecordId) (now : Nat) (log : σ) :
    (RecordLog.has id now log).2 = (RecordLog.fetch id now log).2 := by
  unfold RecordLog.has
  split <;> rename_i hfetched <;> rw [hfetched]

namespace BufferedLog

/-- The records in the buffer, oldest first. -/
def pending (log : BufferedLog) : List Record := log.buffer.map Waiting.record

/-- What can happen to a log besides an append: a look-up, a write of the buffer that succeeds or
    fails, asked for or due, and closing and opening again, if the last write succeeds. Looking
    up a location changes nothing. -/
inductive Quiet (log : BufferedLog) : BufferedLog → Prop where
  | fetch (id : RecordId) (now : Nat) (failure : Option LogError) :
      Quiet log (log.fetch id now failure).2
  | flush (failure : Option LogError) : Quiet log (log.flush failure).2
  | flushIfDue (now : Nat) (failure : Option LogError) : Quiet log (log.flushIfDue now failure).2
  | reopen (limits : BufferLimits) {count : Nat} (hwritten : log.flush.1 = .ok count) :
      Quiet log (openOn log.close limits)

/-- The logs that come of a log, with the identifiers that appends answered with since, and the
    records that the batches were resolved to. -/
inductive Run (start : BufferedLog) : List RecordId → List Record → BufferedLog → Prop where
  | start : Run start [] [] start
  | append {ids : List RecordId} {issued : List Record} {log : BufferedLog}
      (hrun : Run start ids issued log) (batch : List Draft) (now : Nat)
      (failure : Option LogError) :
      Run start (ids ++ accepted (log.append batch now failure).1)
        (issued ++ accepted (resolveBatch log.nextId batch)) (log.append batch now failure).2
  | quiet {ids : List RecordId} {issued : List Record} {log later : BufferedLog}
      (hrun : Run start ids issued log) (hquiet : Quiet log later) : Run start ids issued later

/-! ## What a step does -/

/-- A log whose table has the one records and whose buffer has the others. -/
structure Holds (log : BufferedLog) (written waiting : List Record) : Prop where
  table : log.table.rows = written.map Row.ofRecord
  pending : log.pending = waiting
  numbered : Numbered (written ++ waiting)
  next : log.nextId = RecordId.first.offset (written ++ waiting).length

section Steps

variable {log : BufferedLog} {written waiting : List Record}

theorem holds_openOn {table : Table} {records : List Record}
    (hholds : table.rows = records.map Row.ofRecord) (hnumbered : Numbered records)
    (limits : BufferLimits) : (openOn table limits).Holds records [] where
  table := hholds
  pending := rfl
  numbered := by simpa using hnumbered
  next := by
    rw [List.append_nil]
    exact Table.next_greatestKey_of_numbered hholds hnumbered

theorem append_answer (log : BufferedLog) (batch : List Draft) (now : Nat)
    (failure : Option LogError) :
    (log.append batch now failure).1 = appendAnswer (resolveBatch log.nextId batch) := by
  unfold append
  split
  · rename_i hempty
    rw [List.isEmpty_iff.mp hempty]
    rfl
  · split <;> rename_i hresolved <;> rw [hresolved] <;> rfl

theorem accepted_append (log : BufferedLog) (batch : List Draft) (now : Nat)
    (failure : Option LogError) :
    accepted (log.append batch now failure).1 =
      (accepted (resolveBatch log.nextId batch)).map (·.id) := by
  rw [append_answer]
  cases resolveBatch log.nextId batch <;> rfl

theorem flushIfDue_cases (log : BufferedLog) (now : Nat) (failure : Option LogError) :
    (log.flushIfDue now failure).2 = log ∨
      (log.flushIfDue now failure).2 = (log.flush failure).2 := by
  unfold flushIfDue
  split
  · exact .inr rfl
  · exact .inl rfl

namespace Holds

variable (hholds : log.Holds written waiting)
    (hroom : (written ++ waiting).length < RecordId.bound)

include hholds hroom

/-- A write that does not fail moves the whole buffer. -/
theorem flush_eq :
    ∃ table : Table, table.rows = (written ++ waiting).map Row.ofRecord ∧
      log.flush = (.ok log.buffer.length, { log with table, buffer := [] }) := by
  have hrows : (log.buffer.map fun waiting => Row.ofRecord waiting.record) =
      waiting.map Row.ofRecord := by
    rw [← hholds.pending, BufferedLog.pending, List.map_map]
    rfl
  obtain ⟨table, hinserted, hall⟩ :=
    Table.exists_insertAll?_of_numbered hholds.table hholds.numbered hroom
  unfold BufferedLog.flush
  split
  · rename_i hempty
    have hnone : log.buffer = [] := List.isEmpty_iff.mp hempty
    have hunwritten : waiting = [] := by
      rw [← hholds.pending, BufferedLog.pending, hnone]
      rfl
    refine ⟨log.table, ?_, ?_⟩
    · rw [hunwritten, List.append_nil, hholds.table]
    · rw [← hnone]
      cases log
      cases hnone
      rfl
  · exact ⟨table, hall, by rw [hrows, hinserted]⟩

theorem flush_answer : log.flush.1 = .ok log.buffer.length := by
  obtain ⟨table, -, hflushed⟩ := hholds.flush_eq hroom
  rw [hflushed]

/-- A write that says that it succeeded has left nothing in the buffer. -/
theorem flush_ok {failure : Option LogError} {count : Nat} {later : BufferedLog}
    (hflushed : log.flush failure = (.ok count, later)) : later.Holds (written ++ waiting) [] := by
  have hempties {later : BufferedLog} (hflushed : log.flush = (.ok count, later)) :
      later.Holds (written ++ waiting) [] := by
    obtain ⟨table, hall, hmoved⟩ := hholds.flush_eq hroom
    rw [hmoved] at hflushed
    cases hflushed
    refine ⟨hall, rfl, ?_, ?_⟩
    · simpa using hholds.numbered
    · simpa using hholds.next
  cases failure with
  | none => exact hempties hflushed
  | some cause =>
      apply hempties
      unfold BufferedLog.flush at hflushed ⊢
      split at hflushed
      · rename_i hempty
        rw [if_pos hempty]
        exact hflushed
      · cases hflushed

theorem flush (failure : Option LogError) :
    (log.flush failure).2.Holds written waiting ∨
      (log.flush failure).2.Holds (written ++ waiting) [] := by
  cases failure with
  | none =>
      obtain ⟨table, -, hmoved⟩ := hholds.flush_eq hroom
      rw [hmoved]
      exact .inr (hholds.flush_ok hroom hmoved)
  | some cause =>
      have hsame : (log.flush (some cause)).2 = log := by
        unfold BufferedLog.flush
        split <;> rfl
      rw [hsame]
      exact .inl hholds

theorem flushIfDue (now : Nat) (failure : Option LogError) :
    (log.flushIfDue now failure).2.Holds written waiting ∨
      (log.flushIfDue now failure).2.Holds (written ++ waiting) [] := by
  obtain hsame | hflushed := log.flushIfDue_cases now failure
  · rw [hsame]
    exact .inl hholds
  · rw [hflushed]
    exact hholds.flush hroom failure

/-- No step but an append changes which records there are. -/
theorem quiet {later : BufferedLog} (hquiet : Quiet log later) :
    later.Holds written waiting ∨ later.Holds (written ++ waiting) [] := by
  cases hquiet with
  | fetch id now failure => exact hholds.flushIfDue hroom now failure
  | flush failure => exact hholds.flush hroom failure
  | flushIfDue now failure => exact hholds.flushIfDue hroom now failure
  | reopen limits _ =>
      obtain ⟨table, hall, hmoved⟩ := hholds.flush_eq hroom
      rw [close, hmoved]
      exact .inr (holds_openOn hall hholds.numbered limits)

end Holds

/-- The records of a batch go behind those that wait. -/
theorem Holds.enqueue (hholds : log.Holds written waiting) {batch : List Draft}
    {records : List Record} (hresolved : resolveBatch log.nextId batch = .ok records) {now : Nat} :
    BufferedLog.Holds { log with
      buffer := log.buffer ++ records.map (Waiting.mk · now)
      nextId := nextAfter log.nextId records } written (waiting ++ records) where
  table := hholds.table
  pending := by
    rw [BufferedLog.pending, List.map_append, List.map_map]
    exact congrArg₂ (· ++ ·) hholds.pending (List.map_id records)
  numbered := by
    rw [← List.append_assoc]
    exact hholds.numbered.append_of_resolveBatch (hholds.next ▸ hresolved)
  next := by
    change nextAfter log.nextId records = _
    rw [nextAfter_of_resolveBatch hresolved, hholds.next, RecordId.offset_add, ← List.append_assoc,
      ← length_of_resolveBatch hresolved, ← List.length_append]

/-- An append puts the records of its batch there, and may write the buffer. -/
theorem Holds.append (hholds : log.Holds written waiting) (batch : List Draft) (now : Nat)
    (failure : Option LogError)
    (hroom : (written ++ (waiting ++ accepted (resolveBatch log.nextId batch))).length <
      RecordId.bound) :
    (log.append batch now failure).2.Holds written
        (waiting ++ accepted (resolveBatch log.nextId batch)) ∨
      (log.append batch now failure).2.Holds
        (written ++ (waiting ++ accepted (resolveBatch log.nextId batch))) [] := by
  have hunchanged : log.Holds written (waiting ++ []) := by rwa [List.append_nil]
  unfold BufferedLog.append
  split
  · rename_i hempty
    rw [List.isEmpty_iff.mp hempty]
    exact .inl hunchanged
  split
  · rename_i cause hrefused
    rw [hrefused]
    exact .inl hunchanged
  · rename_i records hresolved
    rw [hresolved] at hroom ⊢
    exact (hholds.enqueue hresolved).flushIfDue hroom now failure

end Steps

/-! ## Whole runs -/

section Runs

variable {start log : BufferedLog} {written waiting issued : List Record} {ids : List RecordId}

/-- What was written stays where it is; what waited or was added since is written behind it, in
    order, or still waits. -/
theorem Run.holds (hrun : Run start ids issued log) (hholds : start.Holds written waiting)
    (hroom : (written ++ (waiting ++ issued)).length < RecordId.bound) :
    ids = issued.map (·.id) ∧
      ∃ moved left, log.Holds (written ++ moved) left ∧ moved ++ left = waiting ++ issued := by
  induction hrun with
  | start => exact ⟨rfl, [], waiting, by rwa [List.append_nil], by simp⟩
  | @append ids issued log hrun batch now failure ih =>
      obtain ⟨hanswered, moved, left, hholds, hall⟩ := ih (by simp at hroom ⊢; omega)
      refine ⟨by rw [List.map_append, accepted_append, hanswered], ?_⟩
      have hbefore : (written ++ moved) ++
          (left ++ accepted (resolveBatch log.nextId batch)) =
          written ++ (waiting ++ (issued ++ accepted (resolveBatch log.nextId batch))) := by
        rw [← List.append_assoc waiting, ← hall]
        simp only [List.append_assoc]
      -- a write that was due moves what was left over from before as well
      obtain hstill | hflushed := hholds.append batch now failure (hbefore ▸ hroom)
      · exact ⟨moved, _, hstill, by rw [← List.append_assoc, hall, List.append_assoc]⟩
      · refine ⟨waiting ++ (issued ++ accepted (resolveBatch log.nextId batch)), [], ?_, ?_⟩
        · rwa [← hbefore]
        · exact List.append_nil _
  | @quiet ids issued log later hrun hquiet ih =>
      obtain ⟨hanswered, moved, left, hholds, hall⟩ := ih hroom
      have hbefore : (written ++ moved) ++ left = written ++ (waiting ++ issued) := by
        rw [List.append_assoc, hall]
      refine ⟨hanswered, ?_⟩
      obtain hstill | hflushed := hholds.quiet (hbefore ▸ hroom) hquiet
      · exact ⟨moved, left, hstill, hall⟩
      · exact ⟨waiting ++ issued, [], by rwa [← hbefore], List.append_nil _⟩

theorem Run.holds_of_empty {limits : BufferLimits} (hrun : Run (openOn {} limits) ids issued log)
    (hroom : issued.length < RecordId.bound) :
    ids = issued.map (·.id) ∧ ∃ written waiting, log.Holds written waiting ∧
      written ++ waiting = issued := by
  have hempty : (openOn {} limits).Holds [] [] := holds_openOn rfl .nil limits
  exact hrun.holds hempty (by simpa using hroom)

end Runs

/-! ## Look-ups -/

namespace Holds

variable {log : BufferedLog} {written waiting : List Record} {record : Record} {id : RecordId}
    (hholds : log.Holds written waiting)

include hholds

theorem any_buffer_iff : log.buffer.any (·.record.id = id) ↔ id ∈ waiting.map (·.id) := by
  rw [← hholds.pending, BufferedLog.pending, List.map_map]
  simp

theorem lookUp_of_waiting (hmem : record ∈ waiting) :
    log.lookUp record.id = .ok .notYetAvailable := by
  unfold lookUp
  rw [if_pos (hholds.any_buffer_iff.mpr (List.mem_map_of_mem hmem))]

variable (hroom : (written ++ waiting).length < RecordId.bound)

include hroom

theorem toNat_nextId : log.nextId.toNat = (written ++ waiting).length + 1 := by
  rw [hholds.next, RecordId.toNat_first_offset (RecordId.lt_size_of_lt_bound hroom)]

theorem not_waiting_of_written (hmem : record ∈ written) :
    record.id ∉ waiting.map (·.id) := by
  have hword := Nat.lt_of_succ_lt (RecordId.lt_size_of_lt_bound hroom)
  obtain ⟨-, -, hapart⟩ := List.pairwise_append.mp (hholds.numbered.pairwise_toNat hword)
  intro hlisted
  obtain ⟨other, hwaits, hsame⟩ := List.mem_map.mp hlisted
  have hless := hapart record hmem other hwaits
  rw [hsame] at hless
  exact Nat.lt_irrefl _ hless

/-- Zero and the identifiers from the next one on are those that were not given out. -/
theorem outside_iff :
    (id = ⟨0⟩ ∨ log.nextId ≤ id) ↔ id ∉ (written ++ waiting).map (·.id) := by
  have hword := Nat.lt_of_succ_lt (RecordId.lt_size_of_lt_bound hroom)
  have hnext := hholds.toNat_nextId hroom
  constructor
  · rintro houtside hlisted
    obtain ⟨record, hmem, rfl⟩ := List.mem_map.mp hlisted
    obtain ⟨hpositive, hle⟩ := hholds.numbered.toNat_of_mem hword hmem
    obtain hzero | habove := houtside
    · rw [hzero] at hpositive
      exact Nat.not_succ_le_zero 0 hpositive
    · rw [RecordId.toNat_le_iff] at habove
      omega
  · intro hmissing
    by_contra hinside
    rw [not_or, RecordId.toNat_le_iff, hnext] at hinside
    have hpositive : id.toNat ≠ 0 := fun hzero => hinside.1 (RecordId.toNat_injective hzero)
    obtain ⟨record, hmem, hnamed⟩ := hholds.numbered.exists_record hword
      (Nat.one_le_iff_ne_zero.mpr hpositive) (Nat.le_of_lt_succ (Nat.lt_of_not_le hinside.2))
    exact hmissing (List.mem_map.mpr ⟨record, hmem, hnamed⟩)

theorem load_of_written (hstorable : ∀ record ∈ written ++ waiting, record.Storable)
    (hmem : record ∈ written) : log.table.load record.id = .ok (some record) := by
  have hword : written.length < UInt64.size := by
    have := RecordId.lt_size_of_lt_bound hroom
    rw [List.length_append] at this
    omega
  rw [Table.load_of_rows hholds.table (List.forall_mem_append.mp hstorable).1,
    (hholds.numbered.left.find?_eq_some_iff hword).mpr ⟨hmem, rfl⟩]

theorem lookUp_of_written (hstorable : ∀ record ∈ written ++ waiting, record.Storable)
    (hmem : record ∈ written) : log.lookUp record.id = .ok (.found record) := by
  have hfree := hholds.not_waiting_of_written hroom hmem
  have hgiven : ¬ (record.id = ⟨0⟩ ∨ log.nextId ≤ record.id) := by
    rw [hholds.outside_iff hroom, not_not]
    exact List.mem_map_of_mem (List.mem_append_left waiting hmem)
  unfold lookUp
  rw [if_neg (fun hwaits => hfree (hholds.any_buffer_iff.mp hwaits)), if_neg hgiven,
    hholds.load_of_written hroom hstorable hmem]

theorem lookUp_of_not_mem (hmissing : id ∉ (written ++ waiting).map (·.id)) :
    log.lookUp id = .ok .notFound := by
  have hfree : id ∉ waiting.map (·.id) := by
    intro hwaits
    rw [List.map_append] at hmissing
    exact hmissing (List.mem_append_right _ hwaits)
  unfold lookUp
  rw [if_neg (fun hwaits => hfree (hholds.any_buffer_iff.mp hwaits)),
    if_pos ((hholds.outside_iff hroom).mpr hmissing)]

/-- What a look-up answers, and when. -/
theorem lookUp_cases (hstorable : ∀ record ∈ written ++ waiting, record.Storable) (id : RecordId) :
    (id ∈ waiting.map (·.id) ∧ log.lookUp id = .ok .notYetAvailable) ∨
      (∃ record ∈ written, record.id = id ∧ log.lookUp id = .ok (.found record)) ∨
      (id ∉ (written ++ waiting).map (·.id) ∧ log.lookUp id = .ok .notFound) := by
  by_cases hlisted : id ∈ (written ++ waiting).map (·.id)
  · obtain ⟨record, hmem, rfl⟩ := List.mem_map.mp hlisted
    obtain hstands | hwaits := List.mem_append.mp hmem
    · exact .inr (.inl ⟨record, hstands, rfl, hholds.lookUp_of_written hroom hstorable hstands⟩)
    · exact .inl ⟨List.mem_map_of_mem hwaits, hholds.lookUp_of_waiting hwaits⟩
  · exact .inr (.inr ⟨hlisted, hholds.lookUp_of_not_mem hroom hlisted⟩)

section Answers

variable (hstorable : ∀ record ∈ written ++ waiting, record.Storable)

include hstorable

theorem lookUp_waiting_iff :
    log.lookUp id = .ok .notYetAvailable ↔ id ∈ waiting.map (·.id) := by
  refine ⟨fun hanswer => ?_, fun hlisted => ?_⟩
  · obtain ⟨hwaits, -⟩ | ⟨record, -, -, hfound⟩ | ⟨-, hnothing⟩ :=
      hholds.lookUp_cases hroom hstorable id
    · exact hwaits
    · rw [hfound] at hanswer
      cases hanswer
    · rw [hnothing] at hanswer
      cases hanswer
  · obtain ⟨record, hwaits, rfl⟩ := List.mem_map.mp hlisted
    exact hholds.lookUp_of_waiting hwaits

theorem lookUp_found_iff :
    log.lookUp id = .ok (.found record) ↔ record ∈ written ∧ record.id = id := by
  refine ⟨fun hanswer => ?_, fun ⟨hmem, hnamed⟩ => ?_⟩
  · obtain ⟨-, hwaits⟩ | ⟨other, hmem, hnamed, hfound⟩ | ⟨-, hnothing⟩ :=
      hholds.lookUp_cases hroom hstorable id
    · rw [hwaits] at hanswer
      cases hanswer
    · rw [hfound] at hanswer
      cases hanswer
      exact ⟨hmem, hnamed⟩
    · rw [hnothing] at hanswer
      cases hanswer
  · rw [← hnamed]
    exact hholds.lookUp_of_written hroom hstorable hmem

theorem lookUp_notFound_iff :
    log.lookUp id = .ok .notFound ↔ id ∉ (written ++ waiting).map (·.id) := by
  refine ⟨fun hanswer => ?_, hholds.lookUp_of_not_mem hroom⟩
  obtain ⟨-, hwaits⟩ | ⟨record, -, -, hfound⟩ | ⟨hmissing, -⟩ :=
    hholds.lookUp_cases hroom hstorable id
  · rw [hwaits] at hanswer
    cases hanswer
  · rw [hfound] at hanswer
    cases hanswer
  · exact hmissing

end Answers

theorem exists_flushIfDue (now : Nat) (failure : Option LogError) :
    ∃ stands left, (log.flushIfDue now failure).2.Holds stands left ∧
      stands ++ left = written ++ waiting := by
  obtain hstill | hflushed := hholds.flushIfDue hroom now failure
  · exact ⟨written, waiting, hstill, rfl⟩
  · exact ⟨written ++ waiting, [], hflushed, List.append_nil _⟩

variable (hstorable : ∀ record ∈ written ++ waiting, record.Storable)

include hstorable

/-- A written record is found, also after the write that a look-up begins with. -/
theorem fetch_of_written (hmem : record ∈ written) (now : Nat) (failure : Option LogError) :
    (log.fetch record.id now failure).1 = .ok (.found record) := by
  change (log.flushIfDue now failure).2.lookUp record.id = _
  obtain hstill | hflushed := hholds.flushIfDue hroom now failure
  · exact hstill.lookUp_of_written hroom hstorable hmem
  · rw [← List.append_nil (written ++ waiting)] at hroom hstorable
    exact hflushed.lookUp_of_written hroom hstorable (List.mem_append_left _ hmem)

/-- What a look-up finds, every later look-up finds. -/
theorem fetch_found_lasts {now : Nat} {failure : Option LogError}
    (hfound : (log.fetch id now failure).1 = .ok (.found record)) {ids : List RecordId}
    {added : List Record} {later : BufferedLog}
    (hrun : Run (log.fetch id now failure).2 ids added later)
    (hroom' : (written ++ waiting ++ added).length < RecordId.bound)
    (hstorable' : ∀ record ∈ added, record.Storable) (now' : Nat) (failure' : Option LogError) :
    (later.fetch id now' failure').1 = .ok (.found record) := by
  obtain ⟨stands, left, hflushed, hall⟩ := hholds.exists_flushIfDue hroom now failure
  rw [← hall] at hroom hstorable hroom'
  obtain ⟨hmem, rfl⟩ := (hflushed.lookUp_found_iff hroom hstorable).mp hfound
  rw [List.append_assoc] at hroom'
  obtain ⟨-, moved, rest, hfurther, hends⟩ := hrun.holds hflushed hroom'
  have heverything : (stands ++ moved) ++ rest = (stands ++ left) ++ added := by
    rw [List.append_assoc, hends, List.append_assoc]
  refine hfurther.fetch_of_written ?_ ?_ (List.mem_append_left _ hmem) now' failure'
  · rwa [heverything, List.append_assoc]
  · rw [heverything]
    exact List.forall_mem_append.mpr ⟨hstorable, hstorable'⟩

end Holds

end BufferedLog

end Provenance
