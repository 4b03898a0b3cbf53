import Provenance.Proofs.Log.Contents
import Provenance.Proofs.Log.Due

/-! # Identifiers that do not return

A log gives out identifiers in ascending order. When it is opened it goes on after the greatest
key, which belongs to the greatest identifier as long as all of them are below `2 ^ 63`. A log that
stays open gives out identifiers beyond that border, and writes them. But then the greatest key is
the one just below the border, and a log that is opened on such a table gives out the identifier
at the border once more.
-/

namespace Provenance.BufferedLog

open RecordId (bound)

/-- The identifiers of the records of a log: those that are written, and those that wait. -/
def ids (log : BufferedLog) : List RecordId := log.rows.map fun row => .ofKey row.key

/-- The logs that come of a log, with the identifiers that appends answered with since. Writes can
    succeed or fail, asked for or due, before a look-up or after an append. A log is closed and
    opened again if the last write succeeds and no identifier from the border on is written. -/
inductive Course (start : BufferedLog) : List RecordId → BufferedLog → Prop where
  | start : Course start [] start
  | append {ids : List RecordId} {log : BufferedLog} (hcourse : Course start ids log)
      (batch : List Draft) (now : Nat) (failure : Option LogError) :
      Course start (ids ++ accepted (log.append batch now failure).1)
        (log.append batch now failure).2
  | flush {ids : List RecordId} {log : BufferedLog} (hcourse : Course start ids log)
      (failure : Option LogError) : Course start ids (log.flush failure).2
  | flushIfDue {ids : List RecordId} {log : BufferedLog} (hcourse : Course start ids log)
      (now : Nat) (failure : Option LogError) : Course start ids (log.flushIfDue now failure).2
  | reopen {ids : List RecordId} {log : BufferedLog} (hcourse : Course start ids log)
      (limits : BufferLimits) {count : Nat} (hwritten : log.flush.1 = .ok count)
      (hsmall : ∀ id ∈ log.close.ids, id.toNat < bound) :
      Course start ids (openOn log.close limits)

/-- Whether a log has numbered on from a table: it has the identifiers of the table and those that
    were given out since, which are the next ones in order. -/
structure GoesOn (table : Table) (given : List RecordId) (log : BufferedLog) : Prop where
  stored : log.ids.Perm (table.ids ++ given)
  counted : given.map (·.toNat) = List.range' (table.lastId.toNat + 1) given.length
  next : log.nextId.toNat = table.lastId.toNat + given.length + 1

variable {table : Table} {given : List RecordId} {log : BufferedLog} {id : RecordId}

theorem ids_eq (log : BufferedLog) : log.ids = log.table.ids ++ log.pending.map (·.id) := by
  simp [ids, rows, Table.ids, Row.ofRecord, Function.comp_def]

theorem ids_openOn (table : Table) (limits : BufferLimits) :
    (openOn table limits).ids = table.ids := by
  rw [ids_eq]
  exact List.append_nil _

theorem Gains.ids {records : List Record} {later : BufferedLog} (hgains : log.Gains records later) :
    later.ids.Perm (log.ids ++ records.map (·.id)) := by
  have hnamed := hgains.rows.map fun row => RecordId.ofKey row.key
  rw [List.map_append, List.map_map] at hnamed
  simpa [BufferedLog.ids, Row.ofRecord, Function.comp_def] using hnamed

/-- The identifiers of a batch are the next ones, one after another. -/
theorem toNat_ids_of_resolveBatch {first : RecordId} {batch : List Draft} {records : List Record}
    (hresolved : resolveBatch first batch = .ok records)
    (hroom : first.toNat + records.length ≤ UInt64.size) :
    (records.map (·.id)).map (·.toNat) = List.range' first.toNat records.length := by
  rw [length_of_resolveBatch hresolved] at hroom ⊢
  rw [ids_of_resolveBatch hresolved, List.map_map, List.range'_eq_map_range]
  refine List.map_congr_left fun i hinside => ?_
  have hwithin := List.mem_range.mp hinside
  rw [Function.comp_apply, RecordId.toNat_offset, Nat.mod_eq_of_lt (by omega)]

theorem toNat_nextId_openOn {limits : BufferLimits} (hbelow : ∀ id ∈ table.ids, id.toNat < bound) :
    (openOn table limits).nextId.toNat = table.lastId.toNat + 1 := by
  have hsmall := Table.toNat_lastId_lt hbelow
  change table.lastId.next.toNat = _
  rw [RecordId.next_eq_offset, RecordId.toNat_offset,
    Nat.mod_eq_of_lt (RecordId.lt_size_of_lt_bound hsmall)]

namespace GoesOn

theorem mem_given_iff (hgoesOn : GoesOn table given log) (number : Nat) :
    (∃ id ∈ given, id.toNat = number) ↔
      table.lastId.toNat < number ∧ number ≤ table.lastId.toNat + given.length := by
  have hlisted : (∃ id ∈ given, id.toNat = number) ↔ number ∈ given.map (·.toNat) := by
    simp
  rw [hlisted, hgoesOn.counted, List.mem_range'_1]
  omega

theorem exists_id (hgoesOn : GoesOn table given log) {number : Nat}
    (hthere : table.ids ≠ [] ∨ table.lastId.toNat < number) (hge : table.lastId.toNat ≤ number)
    (hle : number ≤ table.lastId.toNat + given.length) :
    ∃ id ∈ table.ids ++ given, id.toNat = number := by
  obtain hsame | hless := Nat.eq_or_lt_of_le hge
  · have hfilled := hthere.resolve_right (Nat.not_lt_of_le hsame.ge)
    exact ⟨table.lastId, List.mem_append_left _ (Table.lastId_mem hfilled), hsame⟩
  · obtain ⟨id, hsince, hnumbered⟩ := (hgoesOn.mem_given_iff number).mpr ⟨hless, hle⟩
    exact ⟨id, List.mem_append_right _ hsince, hnumbered⟩

/-- The identifiers that a log gives out come behind those that were given out before. -/
theorem gains {records : List Record} {later : BufferedLog} (hgoesOn : GoesOn table given log)
    (hgains : log.Gains records later)
    (hcounted : (records.map (·.id)).map (·.toNat) = List.range' log.nextId.toNat records.length)
    (hroom : log.nextId.toNat + records.length < UInt64.size) :
    GoesOn table (given ++ records.map (·.id)) later := by
  have hnext := hgoesOn.next
  constructor
  case stored =>
    rw [← List.append_assoc]
    exact hgains.ids.trans (hgoesOn.stored.append_right _)
  case counted =>
    rw [List.map_append, hgoesOn.counted, hcounted, hnext, List.length_append, List.length_map,
      ← List.range'_append, Nat.one_mul]
    congr 2
    omega
  case next =>
    rw [hgains.next, RecordId.toNat_offset, Nat.mod_eq_of_lt hroom, hnext, List.length_append,
      List.length_map]
    omega

theorem unchanged {later : BufferedLog} (hgoesOn : GoesOn table given log)
    (hgains : log.Gains [] later) : GoesOn table given later := by
  have hgoes := hgoesOn.gains hgains rfl log.nextId.toNat_lt
  rwa [List.map_nil, List.append_nil] at hgoes

theorem append (hgoesOn : GoesOn table given log) (batch : List Draft) (now : Nat)
    (failure : Option LogError)
    (hroom : log.nextId.toNat + (accepted (log.append batch now failure).1).length < UInt64.size) :
    GoesOn table (given ++ accepted (log.append batch now failure).1)
      (log.append batch now failure).2 := by
  rw [accepted_append] at hroom ⊢
  cases hresolved : resolveBatch log.nextId batch with
  | error cause =>
      have hrefused : (log.append batch now failure).1 = .error (.invalidReference cause) := by
        rw [append_answer, hresolved]
        rfl
      rw [(append_refused hrefused).2]
      simpa [accepted] using hgoesOn
  | ok records =>
      rw [hresolved, List.length_map] at hroom
      exact hgoesOn.gains (gains_append now failure hresolved)
        (toNat_ids_of_resolveBatch hresolved (by omega)) hroom

section Table

variable (hsmall : ∀ id ∈ table.ids, id.toNat < bound)

include hsmall

theorem le_last (hgoesOn : GoesOn table given log) (hmem : id ∈ table.ids ++ given) :
    id.toNat ≤ table.lastId.toNat + given.length := by
  obtain hthere | hsince := List.mem_append.mp hmem
  · have hle := (Table.le_lastId hthere (hsmall id hthere)).1
    omega
  · exact ((hgoesOn.mem_given_iff _).mp ⟨id, hsince, rfl⟩).2

theorem ascending (hgoesOn : GoesOn table given log) :
    (table.ids ++ given).Pairwise (· < ·) := by
  refine List.pairwise_append.mpr ⟨Table.ascending hsmall, ?_, fun id hthere later hsince => ?_⟩
  · have horder : (given.map (·.toNat)).Pairwise (· < ·) := by
      rw [hgoesOn.counted]
      exact List.pairwise_lt_range'
    exact (List.pairwise_map.mp horder).imp RecordId.toNat_lt_iff.mpr
  · have hle := (Table.le_lastId hthere (hsmall id hthere)).1
    have habove := ((hgoesOn.mem_given_iff _).mp ⟨later, hsince, rfl⟩).1
    exact RecordId.toNat_lt_iff.mpr (by omega)

theorem nodup (hgoesOn : GoesOn table given log) : log.ids.Nodup := by
  refine hgoesOn.stored.nodup_iff.mpr ((hgoesOn.ascending hsmall).imp fun hless hsame => ?_)
  rw [hsame] at hless
  exact Nat.lt_irrefl _ (RecordId.toNat_lt_iff.mp hless)

/-- What is left when the log is closed: every identifier once, in the order of the keys. -/
theorem close (hgoesOn : GoesOn table given log) :
    log.flush.1 = .ok log.buffer.length ∧ log.close.ids.Perm (table.ids ++ given) := by
  have hdistinct : (log.rows.map Row.key).Nodup := by
    have hkeys := (hgoesOn.nodup hsmall).map fun _ _ => RecordId.key_inj.mp
    simpa [ids, Function.comp_def] using hkeys
  have hwritten := flush_ok hdistinct
  have hflushed := hgoesOn.unchanged (log.gains_flush none)
  have hall := hflushed.stored
  rw [ids_eq, pending, buffer_flush hwritten, List.map_nil, List.map_nil, List.append_nil] at hall
  exact ⟨hwritten, hall⟩

/-- As long as no identifier from the border on is written, the greatest key is that of the last
    identifier. -/
theorem toNat_lastId (hgoesOn : GoesOn table given log) {later : Table}
    (hall : later.ids.Perm (table.ids ++ given)) (hbelow : ∀ id ∈ later.ids, id.toNat < bound) :
    later.lastId.toNat = table.lastId.toNat + given.length := by
  by_cases hempty : later.ids = []
  · rw [hempty] at hall
    obtain ⟨hbefore, hsince⟩ := List.append_eq_nil_iff.mp hall.nil_eq.symm
    rw [Table.lastId_of_empty hempty, Table.lastId_of_empty hbefore, hsince]
    rfl
  · have hmem := hall.mem_iff.mp (Table.lastId_mem hempty)
    have hthere : table.ids ≠ [] ∨ table.lastId.toNat < table.lastId.toNat + given.length := by
      obtain hbefore | hsince := List.mem_append.mp hmem
      · exact .inl (List.ne_nil_of_mem hbefore)
      · exact .inr (Nat.lt_add_of_pos_right (List.length_pos_of_mem hsince))
    obtain ⟨id, hlisted, hlast⟩ := hgoesOn.exists_id hthere (Nat.le_add_right _ _) (Nat.le_refl _)
    have hle := hgoesOn.le_last hsmall hmem
    have hlisted := hall.mem_iff.mpr hlisted
    have hge := (Table.le_lastId hlisted (hbelow id hlisted)).1
    omega

theorem reopen (hgoesOn : GoesOn table given log) (limits : BufferLimits)
    (hbelow : ∀ id ∈ log.close.ids, id.toNat < bound) :
    GoesOn table given (openOn log.close limits) := by
  obtain ⟨-, hall⟩ := hgoesOn.close hsmall
  refine ⟨?_, hgoesOn.counted, ?_⟩
  · rwa [ids_openOn]
  · rw [toNat_nextId_openOn hbelow, hgoesOn.toNat_lastId hsmall hall hbelow]

/-- Once an identifier from the border on is written, the greatest key is the one below the
    border. -/
theorem exists_nextId (hgoesOn : GoesOn table given log) (limits : BufferLimits)
    (hmem : id ∈ log.close.ids) (hlarge : bound ≤ id.toNat) :
    (openOn log.close limits).nextId ∈ given := by
  obtain ⟨-, hall⟩ := hgoesOn.close hsmall
  have hbelow := Table.toNat_lastId_lt hsmall
  have hbeyond := hgoesOn.le_last hsmall (hall.mem_iff.mp hmem)
  -- The table was all below the border, so the identifiers given out since go across it.
  obtain ⟨border, hsince, hnumber⟩ := (hgoesOn.mem_given_iff bound).mpr (by omega)
  have hthere : table.ids ≠ [] ∨ table.lastId.toNat < bound - 1 := by
    refine or_iff_not_imp_left.mpr fun hempty => ?_
    rw [Table.lastId_of_empty (not_not.mp hempty)]
    decide
  obtain ⟨id, hlisted, hlast⟩ := hgoesOn.exists_id hthere (by omega) (by omega)
  have hpositive : 0 < bound := by decide
  obtain ⟨hge, hlt⟩ := Table.le_lastId (hall.mem_iff.mpr hlisted) (by omega)
  have hsame : log.close.lastId.next = border := by
    apply RecordId.toNat_injective
    rw [RecordId.next_eq_offset, RecordId.toNat_offset,
      Nat.mod_eq_of_lt (RecordId.lt_size_of_lt_bound hlt)]
    omega
  change log.close.lastId.next ∈ given
  rwa [hsame]

end Table

end GoesOn

theorem Course.goesOn {limits : BufferLimits}
    (hsmall : ∀ id ∈ table.ids, id.toNat < bound) (hcourse : Course (openOn table limits) given log)
    (hroom : table.lastId.toNat + given.length + 1 < UInt64.size) : GoesOn table given log := by
  induction hcourse with
  | start =>
      refine ⟨?_, rfl, toNat_nextId_openOn hsmall⟩
      rw [ids_openOn, List.append_nil]
  | append _ batch now failure ih =>
      rw [List.length_append] at hroom
      have hgoesOn := ih (by omega)
      exact hgoesOn.append batch now failure (by rw [hgoesOn.next]; omega)
  | flush _ failure ih => exact (ih hroom).unchanged (gains_flush _ failure)
  | flushIfDue _ now failure ih => exact (ih hroom).unchanged (gains_flushIfDue _ now failure)
  | reopen _ limits _ hbelow ih => exact (ih hroom).reopen hsmall limits hbelow

/-- What a log makes of a table and the identifiers that were given out since. -/
structure Ascends (table : Table) (given : List RecordId) (log : BufferedLog) : Prop where
  /-- No identifier is given out twice, or is that of a row which was there before. -/
  ascending : (table.ids ++ given).Pairwise (· < ·)
  /-- A write finds every key new. -/
  written : log.flush.1 = .ok log.buffer.length
  stored : log.close.ids.Perm (table.ids ++ given)
  above : (∀ id ∈ log.close.ids, id.toNat < bound) → ∀ (limits : BufferLimits),
    ∀ id ∈ log.close.ids, id < (openOn log.close limits).nextId
  /-- Once an identifier from the border on is written, one of them is the next again. -/
  returns : ∀ id ∈ log.close.ids, bound ≤ id.toNat → ∀ (limits : BufferLimits),
    (openOn log.close limits).nextId ∈ given
  /-- The identifiers of a location ascend, but those from the border on come first. -/
  located : ∀ location, (log.locate location).Pairwise fun a b =>
    bound ≤ a.toNat ∧ b.toNat < bound ∨ (bound ≤ a.toNat ↔ bound ≤ b.toNat) ∧ a < b

/-- Identifiers ascend from one append to the next, over writes and over reopenings, and each can
    be written: a log that stays open goes beyond the border, but when it is opened again it goes
    back to it. -/
theorem identifiers_ascend {limits : BufferLimits} (hpositive : ∀ row ∈ table.rows, 0 < row.key)
    (hcourse : Course (openOn table limits) given log)
    (hroom : table.lastId.toNat + given.length + 1 < UInt64.size) : Ascends table given log := by
  have hsmall : ∀ id ∈ table.ids, id.toNat < bound := by
    intro id hmem
    obtain ⟨row, hlisted, rfl⟩ := List.mem_map.mp hmem
    exact RecordId.toNat_ofKey_of_positive (hpositive row hlisted)
  have hgoesOn := hcourse.goesOn hsmall hroom
  obtain ⟨hwritten, hall⟩ := hgoesOn.close hsmall
  constructor
  case ascending => exact hgoesOn.ascending hsmall
  case written => exact hwritten
  case stored => exact hall
  case above =>
    intro hbelow limits id hmem
    have hle := (Table.le_lastId hmem (hbelow id hmem)).1
    rw [RecordId.toNat_lt_iff, toNat_nextId_openOn hbelow]
    omega
  case returns => exact fun id hmem hlarge limits =>
    hgoesOn.exists_nextId hsmall limits hmem hlarge
  case located =>
    exact fun location => (log.table.pairwise_locate location).imp RecordId.key_lt_key_iff.mp

/-- A table with one row at the start of a file. -/
def lateTable (key : Int64) : Table where
  rows := [{ key, kind := "x", location := some "app.js:1:0", body := "{}" }]
  sorted := List.pairwise_singleton _ _

/-- A log over such a table that has written one record more. -/
def lateLog (key : Int64) : BufferedLog :=
  ((openOn (lateTable key) {}).append [locatedDraft] 0).2.flush.2

theorem lateLog_course (key : Int64) :
    Course (openOn (lateTable key) {})
      (accepted ((openOn (lateTable key) {}).append [locatedDraft] 0).1) (lateLog key) :=
  (Course.start.append [locatedDraft] 0 none).flush none

/-- The last identifiers below the border and from it on, with the log opened again in between. -/
theorem identifiers_ascend_late :
    Ascends (lateTable 0x7FFFFFFFFFFFFFFE) [⟨0x7FFFFFFFFFFFFFFF⟩, ⟨0x8000000000000000⟩]
      ((lateLog 0x7FFFFFFFFFFFFFFE).reopen.append [Draft.stringLiteral "b"] 0).2 := by
  have hreopened : Course (openOn (lateTable 0x7FFFFFFFFFFFFFFE) {}) [⟨0x7FFFFFFFFFFFFFFF⟩]
      (lateLog 0x7FFFFFFFFFFFFFFE).reopen :=
    (lateLog_course 0x7FFFFFFFFFFFFFFE).reopen {} rfl (by decide)
  exact identifiers_ascend (by decide)
    (hreopened.append [Draft.stringLiteral "b"] 0 none) (by decide)

/-- With the greatest key in the table, the next identifier is stored and given out again, and then
    the write fails. The location lists it in front of the smaller one. -/
theorem identifiers_return :
    Course (openOn (lateTable Int64.maxValue) {}) [⟨0x8000000000000000⟩]
        (lateLog Int64.maxValue) ∧
      (lateLog Int64.maxValue).flush.1 = .ok 0 ∧
      ((lateLog Int64.maxValue).reopen.append [Draft.stringLiteral "b"] 0).1 =
        .ok [⟨0x8000000000000000⟩] ∧
      ((lateLog Int64.maxValue).reopen.append [Draft.stringLiteral "b"] 0).2.flush.1 =
        .error .duplicateKey ∧
      (lateLog Int64.maxValue).locate "app.js:1:0" =
        [⟨0x8000000000000000⟩, ⟨0x7FFFFFFFFFFFFFFF⟩] :=
  ⟨lateLog_course Int64.maxValue, rfl, rfl, rfl, by decide⟩

end Provenance.BufferedLog
