import Mathlib.Data.List.Basic
import Provenance.Log.Table
import Provenance.Proofs.Record.Numbering
import Provenance.Proofs.Record.RoundTrip

/-! # Tables of numbered records

As long as identifiers stay below `2 ^ 63`, their keys come in the same order. So a table that
gets records in the order of their identifiers keeps them in that order, and every look-up in
it is one in the list of the records.
-/

namespace Provenance

/-- How many identifiers have a key of their own that is not negative, zero included. -/
def RecordId.bound : Nat := 0x8000000000000000

namespace RecordId

theorem lt_size_of_lt_bound {n : Nat} (hroom : n < bound) : n + 1 < UInt64.size :=
  Nat.lt_of_lt_of_le (Nat.succ_lt_succ hroom) (by decide)

@[simp] theorem ofKey_key (id : RecordId) : ofKey id.key = id :=
  congrArg mk (UInt64.toUInt64_toInt64 id.val)

@[simp] theorem key_inj {a b : RecordId} : a.key = b.key ↔ a = b := by
  refine ⟨fun hsame => ?_, congrArg key⟩
  rw [← ofKey_key a, hsame, ofKey_key]

theorem toInt_key {id : RecordId} (hsmall : id.toNat < bound) : id.key.toInt = id.toNat := by
  have hhalf : 2 * id.val.toBitVec.toNat < 2 ^ 64 := by
    change 2 * id.toNat < 2 ^ 64
    unfold bound at hsmall
    omega
  exact (Int64.toInt_toBitVec _).symm.trans (BitVec.toInt_eq_toNat_of_lt hhalf)

theorem key_lt_key {a b : RecordId} (hless : a.toNat < b.toNat) (hsmall : b.toNat < bound) :
    a.key < b.key := by
  rw [Int64.lt_iff_toInt_lt, toInt_key (Nat.lt_trans hless hsmall), toInt_key hsmall]
  exact Int.ofNat_lt.mpr hless

end RecordId

namespace Table

variable {table later : Table} {rows more : List Row} {row : Row}

theorem insert?_eq_some_iff :
    table.insert? row = some later ↔
      (∀ other ∈ table.rows, other.key ≠ row.key) ∧ later.rows = place row table.rows := by
  rw [← get?_eq_none_iff, insert?]
  split
  · rename_i htaken
    simp [htaken]
  · rename_i hfree
    simp [hfree, Table.ext_iff, eq_comm]

theorem insertAll?_cons (table : Table) (row : Row) (more : List Row) :
    table.insertAll? (row :: more) = (table.insert? row).bind (·.insertAll? more) := by
  rw [insertAll?, List.foldlM_cons]
  rfl

theorem place_of_increasing (hincreasing : ∀ other ∈ rows, other.key < row.key) :
    place row rows = rows ++ [row] := by
  induction rows with
  | nil => rfl
  | cons other rows ih =>
      obtain ⟨hless, hincreasing⟩ := List.forall_mem_cons.mp hincreasing
      rw [place, if_neg (Int64.lt_asymm hless), ih hincreasing]
      rfl

theorem exists_insert? (hfresh : ∀ other ∈ table.rows, other.key ≠ row.key) :
    ∃ later, table.insert? row = some later ∧ later.rows = place row table.rows :=
  ⟨⟨_, sorted_place table.sorted hfresh⟩, insert?_eq_some_iff.mpr ⟨hfresh, rfl⟩, rfl⟩

theorem exists_insert?_of_increasing (hincreasing : ∀ other ∈ table.rows, other.key < row.key) :
    ∃ later, table.insert? row = some later ∧ later.rows = table.rows ++ [row] := by
  rw [← place_of_increasing hincreasing]
  refine exists_insert? fun other hmem hsame => ?_
  have hless := hincreasing other hmem
  rw [hsame] at hless
  exact Int64.lt_irrefl hless

/-- Rows with increasing keys go behind the rows that are there. -/
theorem exists_insertAll?_of_increasing
    (hincreasing : (table.rows ++ more).Pairwise (·.key < ·.key)) :
    ∃ later, table.insertAll? more = some later ∧ later.rows = table.rows ++ more := by
  induction more generalizing table with
  | nil => exact ⟨table, rfl, (List.append_nil _).symm⟩
  | cons row more ih =>
      have habove : ∀ other ∈ table.rows, other.key < row.key := fun other hmem =>
        (List.pairwise_append.mp hincreasing).2.2 other hmem row List.mem_cons_self
      obtain ⟨middle, hplaced, hrows⟩ := exists_insert?_of_increasing habove
      have hrest : (middle.rows ++ more).Pairwise (·.key < ·.key) := by
        rwa [hrows, List.append_assoc]
      obtain ⟨later, hinserted, hall⟩ := ih hrest
      refine ⟨later, ?_, ?_⟩
      · rw [insertAll?_cons, hplaced]
        exact hinserted
      · rw [hall, hrows, List.append_assoc]
        rfl

theorem find?_place {key : Int64} (hfresh : ∀ other ∈ rows, other.key ≠ row.key) :
    (place row rows).find? (·.key = key) =
      if row.key = key then some row else rows.find? (·.key = key) := by
  induction rows with
  | nil => by_cases hsame : row.key = key <;> simp [place, hsame]
  | cons other rows ih =>
      obtain ⟨hapart, hfresh⟩ := List.forall_mem_cons.mp hfresh
      rw [place]
      split
      · by_cases hsame : row.key = key <;> simp [hsame]
      · rw [List.find?_cons, ih hfresh, List.find?_cons]
        by_cases hsame : row.key = key
        · have hunlike : other.key ≠ key := hsame ▸ hapart
          simp [hsame, hunlike]
        · simp [hsame]

/-- A row that is put in stands under its key, and no other key is touched. -/
theorem get?_of_insert? (hinserted : table.insert? row = some later) :
    table.get? row.key = none ∧ later.rows.length = table.rows.length + 1 ∧
      ∀ key, later.get? key = if row.key = key then some row else table.get? key := by
  obtain ⟨hfresh, hrows⟩ := insert?_eq_some_iff.mp hinserted
  refine ⟨get?_eq_none_iff.mpr hfresh, ?_, fun key => ?_⟩
  · rw [hrows, (perm_place row table.rows).length_eq, List.length_cons]
  · rw [get?, hrows, find?_place hfresh]
    rfl

/-- Rows that are put in stand under their keys, and what was there stays. -/
theorem get?_of_insertAll? (hinserted : table.insertAll? more = some later) :
    (∀ row ∈ more, later.get? row.key = some row) ∧
      later.rows.length = table.rows.length + more.length ∧
      ∀ key row, table.get? key = some row → later.get? key = some row := by
  induction more generalizing table with
  | nil =>
      obtain rfl : table = later := Option.some.inj hinserted
      exact ⟨List.forall_mem_nil _, rfl, fun _ _ hthere => hthere⟩
  | cons first more ih =>
      rw [insertAll?_cons] at hinserted
      obtain ⟨middle, hplaced, hrest⟩ := Option.bind_eq_some_iff.mp hinserted
      obtain ⟨hfree, hone, hmiddle_get?⟩ := get?_of_insert? hplaced
      obtain ⟨hadded, hcount, hkept⟩ := ih hrest
      refine ⟨List.forall_mem_cons.mpr ⟨hkept _ _ ?_, hadded⟩, ?_, fun key row hthere => ?_⟩
      · rw [hmiddle_get?, if_pos rfl]
      · rw [hcount, hone, List.length_cons]
        omega
      · apply hkept
        rw [hmiddle_get?, if_neg, hthere]
        rintro rfl
        rw [hfree] at hthere
        cases hthere

/-! ## Tables of records -/

section Records

variable {records others : List Record} {id : RecordId}
  (hholds : table.rows = records.map Row.ofRecord)

include hholds

theorem get?_of_rows : table.get? id.key = (records.find? (·.id = id)).map Row.ofRecord := by
  unfold get?
  rw [hholds, List.find?_map]
  congr 2
  funext record
  simp [Row.ofRecord]

/-- A table gives back what was put in, if all of it can be kept. -/
theorem load_of_rows (hstorable : ∀ record ∈ records, record.Storable) :
    table.load id = .ok (records.find? (·.id = id)) := by
  unfold load
  rw [get?_of_rows hholds]
  cases hfound : records.find? (·.id = id) with
  | none => rfl
  | some record =>
      have hkept := hstorable record (List.mem_of_find?_eq_some hfound)
      have hnamed : record.id = id := by simpa using List.find?_some hfound
      simp only [Option.map_some, Row.ofRecord, Record.read_render hkept]
      rw [if_pos hnamed]

theorem locate_of_rows (location : String) :
    table.locate location =
      (records.filter (·.locationKey = some location)).map (·.id) := by
  unfold locate
  rw [hholds, List.filter_map, List.map_map]
  exact List.map_congr_left fun record _ => RecordId.ofKey_key record.id

/-- Numbered records can be put in one after another. -/
theorem exists_insertAll?_of_numbered (hnumbered : Numbered (records ++ others))
    (hroom : (records ++ others).length < RecordId.bound) :
    ∃ later, table.insertAll? (others.map Row.ofRecord) = some later ∧
      later.rows = (records ++ others).map Row.ofRecord := by
  have hword := Nat.lt_of_succ_lt (RecordId.lt_size_of_lt_bound hroom)
  have hincreasing : ((records ++ others).map Row.ofRecord).Pairwise (·.key < ·.key) := by
    apply List.pairwise_map.mpr
    apply (hnumbered.pairwise_toNat hword).imp_of_mem
    intro record other _ hmem hless
    have hlast := (hnumbered.toNat_of_mem hword hmem).2
    exact RecordId.key_lt_key hless (Nat.lt_of_le_of_lt hlast hroom)
  rw [List.map_append, ← hholds] at hincreasing ⊢
  exact exists_insertAll?_of_increasing hincreasing

/-- The identifier after the greatest key is the next number. -/
theorem next_greatestKey_of_numbered (hnumbered : Numbered records) :
    (RecordId.ofKey table.greatestKey).next = RecordId.first.offset records.length := by
  have hids := congrArg List.getLast? hnumbered
  rw [List.getLast?_map, List.getLast?_map, List.getLast?_range] at hids
  unfold greatestKey
  rw [hholds, List.getLast?_map]
  cases hlast : records.getLast? with
  | none =>
      rw [List.getLast?_eq_none_iff.mp hlast]
      rfl
  | some record =>
      have hpositive : records.length ≠ 0 := by
        intro hnone
        rw [List.length_eq_zero_iff.mp hnone] at hlast
        cases hlast
      rw [hlast, if_neg hpositive] at hids
      have hnamed : record.id = RecordId.first.offset (records.length - 1) := Option.some.inj hids
      change (RecordId.ofKey record.id.key).next = _
      rw [RecordId.ofKey_key, hnamed, RecordId.next_eq_offset, RecordId.offset_add,
        Nat.sub_add_cancel (Nat.one_le_iff_ne_zero.mpr hpositive)]

end Records

end Table

end Provenance
