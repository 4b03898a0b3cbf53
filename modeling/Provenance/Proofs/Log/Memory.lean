import Provenance.Proofs.Named
import Provenance.Proofs.Record.Numbering
import Provenance.Proofs.Trace.Chain

/-! # Logs in memory, as they can be reached

Whatever batches were appended and refused, a log in memory has a record for every identifier
it gave out. So it answers every look-up at once, and a walk over it follows a chain of steps.
-/

namespace Provenance.MemoryLog

variable {log : MemoryLog} {id : RecordId} {record : Record}

/-- The logs that come of the empty one by appending batches, accepted or refused. -/
inductive Reached : MemoryLog → Prop where
  | empty : Reached {}
  | append {log : MemoryLog} (hreached : Reached log) (batch : List Draft) :
    Reached (log.append batch).2

/-- The record of an identifier. -/
def find (log : MemoryLog) (id : RecordId) : Option Record := log.records.find? (·.id = id)

theorem mem_of_find (hfound : log.find id = some record) :
    record ∈ log.records ∧ record.id = id :=
  ⟨List.mem_of_find?_eq_some hfound, by simpa using List.find?_some hfound⟩

theorem fetch_eq_found (hfound : log.find id = some record) : log.fetch id = .found record := by
  unfold find at hfound
  simp [fetch, hfound]

theorem find_of_fetch (hfetched : log.fetch id = .found record) : log.find id = some record := by
  unfold fetch at hfetched
  split at hfetched
  · rename_i hfound
    cases hfetched
    exact hfound
  · split at hfetched <;> cases hfetched

/-- What an append does: nothing, or it adds the records that the batch becomes. -/
theorem append_cases (log : MemoryLog) (batch : List Draft) :
    (log.append batch).2 = log ∨ ∃ records, resolveBatch log.nextId batch = .ok records ∧
      (log.append batch).2.records = log.records ++ records ∧
      (log.append batch).2.nextId = log.nextId.offset batch.length := by
  cases hresolved : resolveBatch log.nextId batch with
  | error cause => exact .inl (by simp [append, hresolved])
  | ok records =>
      exact .inr ⟨records, rfl, by simp [append, hresolved],
        by simp [append, hresolved, nextAfter_of_resolveBatch hresolved]⟩

/-- The index lists the records of a location in the order in which they were entered. -/
theorem get?_index (key : String) (records : List Record) (byLocation : Named (List RecordId)) :
    ((records.foldl index byLocation).get? key).getD [] =
      (byLocation.get? key).getD [] ++
        (records.filter (·.locationKey = some key)).map (·.id) := by
  induction records generalizing byLocation with
  | nil => simp
  | cons record records ih =>
      rw [List.foldl_cons, ih, index]
      cases hlocated : record.locationKey with
      | none => simp [hlocated]
      | some other =>
          by_cases hsame : other = key
          · subst hsame
            simp [hlocated, Named.get?_insert]
          · simp [hlocated, Named.get?_insert, hsame]

namespace Reached

/-- The next identifier is the one after the mark. -/
theorem nextId_eq (hreached : log.Reached) : log.nextId = log.allocated.next := by
  induction hreached with
  | empty => rfl
  | append hreached batch ih =>
      unfold MemoryLog.append
      split
      · exact ih
      · dsimp only
        rw [ih, nextAfter_next]

/-- A batch moves the mark by as many places as it has drafts, and one that is refused leaves it
    where it is. -/
theorem allocated_append (hreached : log.Reached) {batch : List Draft}
    (hnext : (log.append batch).2.nextId = log.nextId.offset batch.length) :
    (log.append batch).2.allocated = log.allocated.offset batch.length := by
  rw [(hreached.append batch).nextId_eq, hreached.nextId_eq] at hnext
  apply RecordId.next_injective
  rw [hnext, RecordId.next_eq_offset, RecordId.next_eq_offset, RecordId.offset_add,
    RecordId.offset_add, Nat.add_comm]

theorem exists_record (hreached : log.Reached) (hgiven : id ≠ ⟨0⟩) (hhold : id ≤ log.allocated) :
    ∃ record ∈ log.records, record.id = id := by
  induction hreached with
  | empty =>
      have hnone : id.toNat ≤ 0 := RecordId.toNat_le_iff.mp hhold
      exact absurd (RecordId.toNat_injective (Nat.le_zero.mp hnone)) hgiven
  | @append log hreached batch ih =>
      obtain hsame | ⟨records, hresolved, hall, hnext⟩ := log.append_cases batch
      · rw [hsame] at hhold ⊢
        exact ih hhold
      · by_cases hbefore : id ≤ log.allocated
        · obtain ⟨record, hmem, hnamed⟩ := ih hbefore
          exact ⟨record, by simp [hall, hmem], hnamed⟩
        · have hafter : log.allocated.toNat < id.toNat :=
            Nat.lt_of_not_le fun hle => hbefore (RecordId.toNat_le_iff.mpr hle)
          rw [hreached.allocated_append hnext, RecordId.toNat_le_iff,
            RecordId.toNat_offset] at hhold
          have hplace : log.nextId.offset (id.toNat - log.allocated.toNat - 1) = id := by
            apply RecordId.toNat_injective
            rw [hreached.nextId_eq, RecordId.next_eq_offset, RecordId.offset_add,
              RecordId.toNat_offset, show log.allocated.toNat +
                (1 + (id.toNat - log.allocated.toNat - 1)) = id.toNat by omega]
            exact Nat.mod_eq_of_lt id.toNat_lt
          have hinside : id.toNat - log.allocated.toNat - 1 < batch.length := by
            have hwrapped := Nat.mod_le (log.allocated.toNat + batch.length) UInt64.size
            omega
          have hmem : id ∈ records.map (·.id) := by
            rw [ids_of_resolveBatch hresolved]
            exact List.mem_map.mpr ⟨_, List.mem_range.mpr hinside, hplace⟩
          obtain ⟨record, hnew, hnamed⟩ := List.mem_map.mp hmem
          exact ⟨record, by simp [hall, hnew], hnamed⟩

theorem numbered_and_next (hreached : log.Reached) :
    Numbered log.records ∧ log.nextId = RecordId.first.offset log.records.length := by
  induction hreached with
  | empty => exact ⟨.nil, (RecordId.offset_zero _).symm⟩
  | @append log hreached batch ih =>
      obtain hsame | ⟨records, hresolved, hall, hnext⟩ := log.append_cases batch
      · rw [hsame]
        exact ih
      · obtain ⟨hnumbered, hfollows⟩ := ih
        rw [hfollows] at hresolved hnext
        rw [hall, hnext, RecordId.offset_add, List.length_append, length_of_resolveBatch hresolved]
        exact ⟨hnumbered.append_of_resolveBatch hresolved, rfl⟩

theorem toNat_nextId (hreached : log.Reached) (hroom : log.records.length + 1 < UInt64.size) :
    log.nextId.toNat = log.records.length + 1 := by
  rw [hreached.numbered_and_next.2, RecordId.toNat_first_offset hroom]

theorem toNat_allocated (hreached : log.Reached) (hroom : log.records.length + 1 < UInt64.size) :
    log.allocated.toNat = log.records.length := by
  have hnext := hreached.toNat_nextId hroom
  rw [hreached.nextId_eq, RecordId.next_eq_offset, RecordId.toNat_offset] at hnext
  have hword : log.allocated.toNat < UInt64.size := log.allocated.val.toNat_lt
  obtain hless | hlast := Nat.lt_or_ge (log.allocated.toNat + 1) UInt64.size
  · rw [Nat.mod_eq_of_lt hless] at hnext
    exact Nat.succ.inj hnext
  · rw [show log.allocated.toNat + 1 = UInt64.size by omega, Nat.mod_self] at hnext
    cases hnext

theorem lt_nextId_iff (hreached : log.Reached) (hroom : log.records.length + 1 < UInt64.size) :
    id < log.nextId ↔ id ≤ log.allocated := by
  rw [RecordId.toNat_lt_iff, RecordId.toNat_le_iff, hreached.toNat_nextId hroom,
    hreached.toNat_allocated hroom, Nat.lt_succ_iff]

theorem find_zero (hreached : log.Reached) (hroom : log.records.length + 1 < UInt64.size) :
    log.find ⟨0⟩ = none := by
  apply List.find?_eq_none.mpr
  intro record hmem hnamed
  have hpositive := (hreached.numbered_and_next.1.toNat_of_mem (by omega) hmem).1
  rw [of_decide_eq_true hnamed] at hpositive
  exact Nat.not_succ_le_zero 0 hpositive

theorem looksBack (hreached : log.Reached) (hroom : log.records.length + 1 < UInt64.size) :
    ∀ record ∈ log.records, record.LooksBack := by
  induction hreached with
  | empty => exact fun _ hmem => nomatch hmem
  | @append log hreached batch ih =>
      obtain hsame | ⟨records, hresolved, hall, -⟩ := log.append_cases batch
      · rw [hsame] at hroom ⊢
        exact ih hroom
      · rw [hall, List.length_append, length_of_resolveBatch hresolved] at hroom
        have hnext := hreached.toNat_nextId (by omega)
        rw [hall]
        exact List.forall_mem_append.mpr
          ⟨ih (by omega), looksBack_of_resolveBatch hresolved (by omega)⟩

theorem locate_eq (hreached : log.Reached) (key : String) :
    log.locate key = (log.records.filter (·.locationKey = some key)).map (·.id) := by
  induction hreached with
  | empty => rfl
  | @append log hreached batch ih =>
      unfold MemoryLog.append
      split
      · exact ih
      · unfold locate at ih ⊢
        rw [get?_index, ih, List.filter_append, List.map_append]

theorem settled (hreached : log.Reached) : Settled log.find log := by
  intro id now
  cases hfound : log.find id with
  | some record => simp [RecordLog.fetch, fetch_eq_found hfound, hfound]
  | none =>
      have habsent : ¬ (id ≠ ⟨0⟩ ∧ id ≤ log.allocated) := by
        rintro ⟨hgiven, hhold⟩
        obtain ⟨record, hmem, hnamed⟩ := hreached.exists_record hgiven hhold
        have := List.find?_eq_none.mp hfound record hmem
        exact this (by simpa using hnamed)
      unfold find at hfound
      simp [RecordLog.fetch, fetch, find, hfound, habsent]

end Reached

theorem mem_ids_of_find (hfound : log.find id = some record) : id ∈ log.records.map (·.id) := by
  obtain ⟨hmem, hnamed⟩ := mem_of_find hfound
  exact List.mem_map.mpr ⟨record, hmem, hnamed⟩

/-- A walk over a log that can be reached has fuel enough, and comes to the fate of its chain. -/
theorem Reached.walkFrom_fate (hreached : log.Reached) {options : WalkOptions}
    (hprovided : options.rules.Provided) (hunlimited : options.limits.maxSteps = none)
    (start : Step) :
    let chain : Chain := ⟨options.rules, log.find, start⟩
    ∃ n result,
      walkFrom options (RecordLog.size log * (start.charIndex + 1) + 2) [] start log =
        some (result, log) ∧ chain.Fate n result ∧ ∀ k < n, ¬ chain.ReturnsAt k := by
  intro chain
  have hcomplete : ∀ id record, chain.find id = some record → id ∈ log.records.map (·.id) :=
    fun _ _ => mem_ids_of_find
  have henough : log.records.length * (start.charIndex + 1) <
      RecordLog.size log * (start.charIndex + 1) + 2 := Nat.lt_add_of_pos_right Nat.two_pos
  exact chain.walkFrom_start_fate hreached.settled hprovided hcomplete rfl hunlimited henough

theorem Reached.walk_fate (hreached : log.Reached) {options : WalkOptions}
    (hprovided : options.rules.Provided) (hunlimited : options.limits.maxSteps = none)
    (start : Step) :
    let chain : Chain := ⟨options.rules, log.find, start⟩
    ∃ n result, walk options start log = (result, log) ∧ chain.Fate n result ∧
      ∀ k < n, ¬ chain.ReturnsAt k := by
  obtain ⟨n, result, hcomes, hfate, hfresh⟩ := hreached.walkFrom_fate hprovided hunlimited start
  exact ⟨n, result, walk_eq_of_walkFrom hcomes, hfate, hfresh⟩

end Provenance.MemoryLog
