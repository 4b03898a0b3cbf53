import Provenance.Proofs.Log.Durability
import Provenance.Proofs.Log.Memory

/-! # Looking up by place

The key of a source location is the file with the line and the column behind it, and colons in
between. A file name may have colons and digits of its own. But the line and the column have no
colon, so they are what is behind the last two, and keys are equal only for one place.

The records of a place are listed in the order of their identifiers, by a log in memory as by one
over a table, whatever was appended, written or left waiting before.
-/

namespace Provenance

/-! ## Keys -/

theorem append_cons_inj_of_not_mem {α : Type} {mark : α} {front back others rest : List α}
    (hfresh : mark ∉ back) (hfresh' : mark ∉ rest) :
    front ++ mark :: back = others ++ mark :: rest ↔ front = others ∧ back = rest := by
  constructor
  · intro hsame
    obtain ⟨more, rfl, hbehind⟩ | ⟨more, rfl, hbehind⟩ := List.append_eq_append_iff.mp hsame
    · cases more with
      | nil => simpa using hbehind
      | cons first more =>
          obtain ⟨-, rfl⟩ := List.cons.inj hbehind
          exact absurd (List.mem_append_right more List.mem_cons_self) hfresh
    · cases more with
      | nil => simpa using hbehind.symm
      | cons first more =>
          obtain ⟨-, rfl⟩ := List.cons.inj hbehind
          exact absurd (List.mem_append_right more List.mem_cons_self) hfresh'
  · rintro ⟨rfl, rfl⟩
    rfl

theorem colon_not_mem_toDigits (n : Nat) : ':' ∉ Nat.toDigits 10 n := by
  intro hmem
  have hdigit := Nat.isDigit_of_mem_toDigits (by decide) (by decide) hmem
  exact absurd hdigit (by decide)

theorem toDigits_inj {m n : Nat} : Nat.toDigits 10 m = Nat.toDigits 10 n ↔ m = n := by
  refine ⟨fun hsame => ?_, congrArg _⟩
  rw [← Nat.ofDigitChars_ten_toDigits (n := m), hsame, Nat.ofDigitChars_ten_toDigits]

/-- Two source locations have one key if they begin at one place of one file, and only then. -/
theorem SourceLocation.key_eq_key_iff {one other : SourceLocation} :
    one.key = other.key ↔ one.file = other.file ∧ one.start = other.start := by
  have hstart : one.start = other.start ↔
      one.start.line = other.start.line ∧ one.start.column = other.start.column := by
    cases one.start
    cases other.start
    simp
  rw [key, key, String.ofList_inj,
    append_cons_inj_of_not_mem (colon_not_mem_toDigits _) (colon_not_mem_toDigits _),
    append_cons_inj_of_not_mem (colon_not_mem_toDigits _) (colon_not_mem_toDigits _),
    toDigits_inj, toDigits_inj, UInt32.toNat_inj, UInt32.toNat_inj, String.toList_inj, hstart,
    and_assoc]

/-! ## Lists of identifiers -/

/-- Whether the records that a log has are listed by their source locations, each of them under its
    own place and no other. -/
structure ListsPlaces (locate : String → List RecordId) (Has : Record → Prop) : Prop where
  ascending : ∀ key, (locate key).Pairwise (· < ·)
  mem_iff : ∀ key id, id ∈ locate key ↔ ∃ record, Has record ∧ record.id = id ∧
    ∃ location, record.location = some location ∧ location.key = key
  /-- A list never has the records of two places. -/
  apart : ∀ (place : SourceLocation) id, id ∈ locate place.key ↔
    ∃ record, Has record ∧ record.id = id ∧ ∃ location, record.location = some location ∧
      location.file = place.file ∧ location.start = place.start

theorem Numbered.listsPlaces {records : List Record} (hnumbered : Numbered records)
    (hroom : records.length < UInt64.size) {locate : String → List RecordId}
    (hlists : ∀ key, locate key = (records.filter (·.locationKey = some key)).map (·.id))
    {Has : Record → Prop} (hhas_iff : ∀ record, Has record ↔ record ∈ records) :
    ListsPlaces locate Has := by
  have hmem_iff : ∀ key id, id ∈ locate key ↔ ∃ record, Has record ∧ record.id = id ∧
      ∃ location, record.location = some location ∧ location.key = key := by
    intro key id
    simp only [hlists, hhas_iff, List.mem_map, List.mem_filter, decide_eq_true_eq,
      Operation.locationKey, Option.map_eq_some_iff]
    exact exists_congr fun record => by rw [and_assoc, and_comm (a := _ = id)]
  constructor
  case ascending =>
    intro key
    rw [hlists, List.pairwise_map]
    exact ((hnumbered.pairwise_toNat hroom).filter _).imp RecordId.toNat_lt_iff.mpr
  case mem_iff => exact hmem_iff
  case apart =>
    intro place id
    simp only [hmem_iff, SourceLocation.key_eq_key_iff]

namespace BufferedLog

/-- Whether a record that a log has numbered stands in its table. -/
def Wrote (log : BufferedLog) (issued : List Record) (record : Record) : Prop :=
  record ∈ issued ∧ (log.table.get? record.id.key).isSome

theorem Holds.wrote_iff {log : BufferedLog} {written waiting : List Record}
    (hholds : log.Holds written waiting) (hroom : (written ++ waiting).length < UInt64.size)
    (record : Record) : log.Wrote (written ++ waiting) record ↔ record ∈ written := by
  rw [Wrote, hholds.isSome_get?_iff]
  constructor
  · rintro ⟨hmem, other, hstands, hsame⟩
    rwa [hholds.numbered.eq_of_id_eq hroom hmem (List.mem_append_left _ hstands) hsame.symm]
  · intro hstands
    exact ⟨List.mem_append_left _ hstands, record, hstands, rfl⟩

end BufferedLog

theorem MemoryLog.Reached.fetch_found_iff {log : MemoryLog} (hreached : log.Reached)
    (hroom : log.records.length < UInt64.size) (record : Record) :
    log.fetch record.id = .found record ↔ record ∈ log.records := by
  have hfound_iff : log.find record.id = some record ↔
      record ∈ log.records ∧ record.id = record.id :=
    hreached.numbered_and_next.1.find?_eq_some_iff hroom
  constructor
  · intro hfound
    exact (hfound_iff.mp (MemoryLog.find_of_fetch hfound)).1
  · intro hmem
    exact MemoryLog.fetch_eq_found (hfound_iff.mpr ⟨hmem, rfl⟩)

/-- In any log that began empty, a key leads to the records that begin at its place, in the order of
    their identifiers: in memory to all of them, over a table to those that are written. The key
    tells one place from every other. -/
theorem lists_places {memory : MemoryLog} (hreached : memory.Reached)
    (hspace : memory.records.length < UInt64.size) {limits : BufferLimits} {ids : List RecordId}
    {issued : List Record} {log : BufferedLog}
    (hrun : BufferedLog.Run (.openOn {} limits) ids issued log)
    (hroom : issued.length < RecordId.bound) :
    ListsPlaces memory.locate (fun record => memory.fetch record.id = .found record) ∧
      ListsPlaces log.locate (log.Wrote issued) ∧
      ∀ one other : SourceLocation,
        one.key = other.key ↔ one.file = other.file ∧ one.start = other.start := by
  obtain ⟨-, written, waiting, hholds, rfl⟩ := hrun.holds_of_empty hroom
  have hword := Nat.lt_of_succ_lt (RecordId.lt_size_of_lt_bound hroom)
  refine ⟨?_, ?_, fun _ _ => SourceLocation.key_eq_key_iff⟩
  · exact hreached.numbered_and_next.1.listsPlaces hspace hreached.locate_eq
      (hreached.fetch_found_iff hspace)
  · have hfew : written.length < UInt64.size := by
      rw [List.length_append] at hword
      omega
    refine hholds.numbered.left.listsPlaces hfew (fun key => ?_) (hholds.wrote_iff hword)
    rw [BufferedLog.locate, Table.locate_of_rows hholds.table]

/-- A literal at a place of a file. -/
def placedDraft (file : String) (line column : UInt32) : Draft :=
  (Draft.stringLiteral "x").withLocation ⟨file, ⟨line, column⟩, ⟨line, column + 1⟩⟩

/-- Records of a place in the file `a:1`, and between them one at line 1 of the file `a`. The last
    record is not written yet. -/
theorem lists_places_colons :
    let batch := [placedDraft "a:1" 2 3, placedDraft "a" 1 2, placedDraft "a:1" 2 3]
    let later := [placedDraft "a:1" 2 3]
    let memory := ((MemoryLog.append batch {}).2.append later).2
    let log := (((BufferedLog.append batch 0 (.openOn {} {})).2.flush).2.append later 0).2
    memory.locate "a:1:2:3" = [⟨1⟩, ⟨3⟩, ⟨4⟩] ∧ log.locate "a:1:2:3" = [⟨1⟩, ⟨3⟩] ∧
      ListsPlaces memory.locate (fun record => memory.fetch record.id = .found record) ∧
      ∃ issued, issued.map (·.id) = [⟨1⟩, ⟨2⟩, ⟨3⟩, ⟨4⟩] ∧
        ListsPlaces log.locate (log.Wrote issued) := by
  intro batch later memory log
  have hreached : memory.Reached := .append (.append .empty batch) later
  have hbegun : BufferedLog.Run (.openOn {} {}) [] [] (.openOn {} {}) := .start
  have hrun := ((hbegun.append batch 0 none).quiet (.flush none)).append later 0 none
  obtain ⟨hinMemory, hoverTable, -⟩ := lists_places hreached (by decide) hrun (by decide)
  exact ⟨by decide, by decide, hinMemory, _, by decide, hoverTable⟩

end Provenance
