import Provenance.Proofs.Log.Equivalence

/-! # Logs without gaps

Whatever batches are appended, refused or empty ones among them, a log in memory holds one record
for each number up to its mark, which look-ups go by, and the next number is the one after the mark.
What a record refers to is older and is there as well, unless it is zero, and what is there stays as
it is.
-/

namespace Provenance

theorem accepted_appendAnswer (resolved : Except ReferenceError (List Record)) :
    accepted (appendAnswer resolved) = (accepted resolved).map (·.id) := by
  cases resolved <;> rfl

theorem RecordId.toNat_pos_iff {id : RecordId} : 0 < id.toNat ↔ id ≠ ⟨0⟩ := by
  rw [Nat.pos_iff_ne_zero]
  exact not_congr
    ⟨fun hzero => RecordId.toNat_injective hzero, fun hzero => congrArg RecordId.toNat hzero⟩

namespace MemoryLog

variable {start log later : MemoryLog} {ids : List RecordId} {id : RecordId} {record : Record}

/-- The logs that come of a log by appending batches, with the identifiers that the appends
    answered with. -/
inductive Run (start : MemoryLog) : List RecordId → MemoryLog → Prop where
  | start : Run start [] start
  | append {ids : List RecordId} {log : MemoryLog} (hrun : Run start ids log) (batch : List Draft) :
      Run start (ids ++ accepted (log.append batch).1) (log.append batch).2

namespace Run

theorem reached (hrun : Run start ids log) (hreached : start.Reached) : log.Reached := by
  induction hrun with
  | start => exact hreached
  | append _ batch ih => exact .append ih batch

/-- An append adds records behind those that are there. -/
theorem records_prefix (hrun : Run start ids log) : start.records <+: log.records := by
  induction hrun with
  | start => exact List.prefix_refl _
  | append _ batch ih =>
      rw [append_records]
      exact ih.trans (List.prefix_append _ _)

theorem map_id_records (hrun : Run start ids log) :
    log.records.map (·.id) = start.records.map (·.id) ++ ids := by
  induction hrun with
  | start => exact (List.append_nil _).symm
  | append _ batch ih =>
      rw [append_records, append_answer, accepted_appendAnswer, List.map_append, ih,
        List.append_assoc]

theorem find_lasts (hrun : Run start ids later) (hfound : start.find id = some record) :
    later.find id = some record := by
  obtain ⟨added, hall⟩ := hrun.records_prefix
  unfold find at hfound ⊢
  rw [← hall, List.find?_append, hfound, Option.some_or]

end Run

theorem Reached.fetch_cases (hreached : log.Reached) (id : RecordId) :
    (∃ record, log.fetch id = .found record) ∨ log.fetch id = .notFound := by
  rw [hreached.fetch_eq]
  cases log.find id with
  | none => exact .inr rfl
  | some record => exact .inl ⟨record, rfl⟩

/-- Nothing is ever waited for. -/
theorem Reached.ready (hreached : log.Reached) (id : RecordId) :
    log.fetch id ≠ .notYetAvailable := by
  obtain ⟨record, hfound⟩ | hnothing := hreached.fetch_cases id
  · rw [hfound]
    nofun
  · rw [hnothing]
    nofun

/-- A log holds exactly the records that it gave the identifiers to, and what they refer to. -/
structure Closed (log : MemoryLog) (ids : List RecordId) : Prop where
  given : log.records.map (·.id) = ids
  stored : log.records.map (·.id.toNat) = List.range' 1 log.allocated.toNat
  next : log.nextId.toNat = log.allocated.toNat + 1
  found_iff : ∀ id, (∃ record, log.fetch id = .found record) ↔ id ≠ ⟨0⟩ ∧ id ≤ log.allocated
  named : ∀ id record, log.fetch id = .found record → record.id = id
  /-- This goes for the references of all three groups of operands. -/
  older : ∀ id record, log.fetch id = .found record →
    ∀ reference ∈ record.references, reference < id
  closed : ∀ id record, log.fetch id = .found record →
    ∀ reference ∈ record.references, reference ≠ ⟨0⟩ → ∃ source, log.fetch reference = .found source
  notFound_iff : ∀ id, log.fetch id = .notFound ↔ id = ⟨0⟩ ∨ log.allocated < id
  ready : ∀ id, log.fetch id ≠ .notYetAvailable
  /-- What was appended stays as it is, whatever is appended later. -/
  lasting : ∀ more later, Run log more later → log.records <+: later.records ∧
    ∀ id record, log.fetch id = .found record → later.fetch id = .found record

theorem Reached.exists_fetch_iff (hreached : log.Reached)
    (hroom : log.records.length + 1 < UInt64.size) :
    (∃ record, log.fetch id = .found record) ↔ id ≠ ⟨0⟩ ∧ id ≤ log.allocated := by
  constructor
  · rintro ⟨record, hfound⟩
    obtain ⟨hmem, rfl⟩ := mem_of_find (find_of_fetch hfound)
    rw [← RecordId.toNat_pos_iff, RecordId.toNat_le_iff, hreached.toNat_allocated hroom]
    exact hreached.numbered_and_next.1.toNat_of_mem (Nat.lt_of_succ_lt hroom) hmem
  · rintro ⟨hgiven, hhold⟩
    obtain ⟨record, hmem, hnamed⟩ := hreached.exists_record hgiven hhold
    have hfound := (hreached.numbered_and_next.1.find?_eq_some_iff (Nat.lt_of_succ_lt hroom)).mpr
      ⟨hmem, hnamed⟩
    exact ⟨record, fetch_eq_found hfound⟩

theorem Reached.isClosed (hreached : log.Reached) (hroom : log.records.length + 1 < UInt64.size) :
    log.Closed (log.records.map (·.id)) := by
  have hfound_iff : ∀ id, (∃ record, log.fetch id = .found record) ↔
      id ≠ ⟨0⟩ ∧ id ≤ log.allocated := fun id => hreached.exists_fetch_iff hroom
  have holder : ∀ id record, log.fetch id = .found record →
      ∀ reference ∈ record.references, reference < id := by
    intro id record hfound
    obtain ⟨hmem, rfl⟩ := mem_of_find (find_of_fetch hfound)
    exact hreached.looksBack hroom record hmem
  constructor
  case given => rfl
  case stored =>
    rw [hreached.toNat_allocated hroom]
    exact hreached.numbered_and_next.1.map_toNat (Nat.lt_of_succ_lt hroom)
  case next =>
    rw [hreached.toNat_allocated hroom]
    exact hreached.toNat_nextId hroom
  case found_iff => exact hfound_iff
  case named => exact fun id record hfound => (mem_of_find (find_of_fetch hfound)).2
  case older => exact holder
  case closed =>
    intro id record hfound reference hmem hgiven
    have hless := RecordId.toNat_lt_iff.mp (holder id record hfound reference hmem)
    have hle := RecordId.toNat_le_iff.mp ((hfound_iff id).mp ⟨record, hfound⟩).2
    exact (hfound_iff reference).mpr
      ⟨hgiven, RecordId.toNat_le_iff.mpr (Nat.le_trans (Nat.le_of_lt hless) hle)⟩
  case notFound_iff =>
    intro id
    have houtside : ¬ (∃ record, log.fetch id = .found record) ↔
        id = ⟨0⟩ ∨ log.allocated < id := by
      rw [hfound_iff, RecordId.toNat_le_iff, RecordId.toNat_lt_iff, ← Nat.not_le]
      tauto
    rw [← houtside]
    constructor
    · rintro hnothing ⟨record, hfound⟩
      rw [hfound] at hnothing
      cases hnothing
    · exact (hreached.fetch_cases id).resolve_left
  case ready => exact hreached.ready
  case lasting =>
    intro more later hfurther
    exact ⟨hfurther.records_prefix, fun id record hfound =>
      fetch_eq_found (hfurther.find_lasts (find_of_fetch hfound))⟩

/-- A log that began empty has no gaps, as long as the identifiers fit their words, the next one
    included. -/
theorem closed_of_run (hrun : Run {} ids log) (hroom : ids.length + 1 < UInt64.size) :
    log.Closed ids := by
  have hall : log.records.map (·.id) = ids := hrun.map_id_records
  have hclosed : log.Closed (log.records.map (·.id)) := by
    apply (hrun.reached .empty).isClosed
    rwa [← hall, List.length_map] at hroom
  rwa [hall] at hclosed

/-- A sum of an older draft and of something that was never recorded, a batch that is refused since
    its draft refers to itself, an empty batch, and an operand at runtime from an older batch. -/
theorem closed_of_run_refused :
    let sum : List Draft := [Draft.stringLiteral "a",
      Draft.concat ⟨.str "a", some (.inBatch 0)⟩ ⟨.str "?", some (.stored ⟨0⟩)⟩]
    let refused : List Draft := [Draft.concat ⟨.str "a", some (.inBatch 0)⟩ ⟨.str "b", none⟩]
    let further : List Draft :=
      [(Draft.stringLiteral "b").withRuntimeArg "assignment" ⟨.str "a?", some (.stored ⟨2⟩)⟩]
    let log := ((((MemoryLog.append sum {}).2.append refused).2.append []).2.append further).2
    Run {} [⟨1⟩, ⟨2⟩, ⟨3⟩] log ∧ [RecordId.mk 1, ⟨2⟩, ⟨3⟩].length + 1 < UInt64.size ∧
      log.Closed [⟨1⟩, ⟨2⟩, ⟨3⟩] := by
  intro sum refused further log
  have hrun : Run {} [⟨1⟩, ⟨2⟩, ⟨3⟩] log :=
    (((Run.start.append sum).append refused).append []).append further
  have hroom : [RecordId.mk 1, ⟨2⟩, ⟨3⟩].length + 1 < UInt64.size := by decide
  exact ⟨hrun, hroom, closed_of_run hrun hroom⟩

end MemoryLog

end Provenance
