import Mathlib.Data.List.Perm.Basic
import Provenance.Proofs.Log.Table

/-! # Identifiers by their keys

A key is the word of an identifier, read as a signed one. So a table, which is in the order of its
keys, is in the order of its identifiers as long as they are below `2 ^ 63`, and those from there
on come first. Rows can be put in whenever their keys are new, in any order.
-/

namespace Provenance

namespace RecordId

@[simp] theorem key_ofKey (key : Int64) : (ofKey key).key = key := Int64.toInt64_toUInt64 key

theorem toInt_key_of_large {id : RecordId} (hlarge : bound ≤ id.toNat) :
    id.key.toInt = id.toNat - (UInt64.size : Int) := by
  have hhalf : ¬ 2 * id.val.toBitVec.toNat < 2 ^ 64 := by
    change ¬ 2 * id.toNat < 2 ^ 64
    unfold bound at hlarge
    omega
  have hword := BitVec.toInt_eq_toNat_cond id.val.toBitVec
  rw [if_neg hhalf] at hword
  exact (Int64.toInt_toBitVec _).symm.trans hword

/-- Keys come in the order of the identifiers, but the large ones come first. -/
theorem key_lt_key_iff {a b : RecordId} :
    a.key < b.key ↔
      bound ≤ a.toNat ∧ b.toNat < bound ∨ (bound ≤ a.toNat ↔ bound ≤ b.toNat) ∧ a < b := by
  have hsize : (UInt64.size : Int) = 2 * bound := by decide
  have habove := a.toNat_lt
  have habove' := b.toNat_lt
  rw [Int64.lt_iff_toInt_lt, toNat_lt_iff]
  rcases Nat.lt_or_ge a.toNat bound with hsmall | hlarge <;>
    rcases Nat.lt_or_ge b.toNat bound with hsmall' | hlarge'
  · rw [toInt_key hsmall, toInt_key hsmall']
    omega
  · rw [toInt_key hsmall, toInt_key_of_large hlarge']
    omega
  · rw [toInt_key_of_large hlarge, toInt_key hsmall']
    omega
  · rw [toInt_key_of_large hlarge, toInt_key_of_large hlarge']
    omega

theorem toNat_ofKey_of_positive {key : Int64} (hpositive : 0 < key) :
    (ofKey key).toNat < bound := by
  by_contra hlarge
  have hsign := toInt_key_of_large (Nat.le_of_not_lt hlarge)
  have hword := (ofKey key).toNat_lt
  rw [key_ofKey] at hsign
  rw [Int64.lt_iff_toInt_lt, Int64.toInt_zero] at hpositive
  omega

end RecordId

namespace Table

variable {table later : Table} {rows more : List Row} {row : Row} {id : RecordId}

/-- The identifiers of a table, in the order of their keys. -/
def ids (table : Table) : List RecordId := table.rows.map fun row => .ofKey row.key

/-- The identifier of the greatest key, or zero. -/
def lastId (table : Table) : RecordId := .ofKey table.greatestKey

theorem perm_place_append (row : Row) (rows more : List Row) :
    (place row rows ++ more).Perm (rows ++ row :: more) :=
  ((perm_place row rows).append_right more).trans List.perm_middle.symm

/-- A table takes up all rows, if their keys are new. -/
theorem exists_insertAll? (hdistinct : (table.rows ++ more).map Row.key |>.Nodup) :
    ∃ later, table.insertAll? more = some later := by
  induction more generalizing table with
  | nil => exact ⟨table, rfl⟩
  | cons row more ih =>
      have hfresh : ∀ other ∈ table.rows, other.key ≠ row.key := by
        rw [List.map_append, List.map_cons] at hdistinct
        intro other hmem
        exact (List.nodup_append.mp hdistinct).2.2 _ (List.mem_map_of_mem hmem) _
          List.mem_cons_self
      obtain ⟨middle, hplaced, hrows⟩ := exists_insert? hfresh
      rw [insertAll?_cons, hplaced]
      refine ih ?_
      rw [hrows]
      exact ((perm_place_append row table.rows more).map Row.key).nodup_iff.mpr hdistinct

/-- A table takes up the rows that are put in and nothing else. -/
theorem rows_of_insertAll? (hinserted : table.insertAll? more = some later) :
    later.rows.Perm (table.rows ++ more) := by
  induction more generalizing table with
  | nil =>
      obtain rfl : table = later := Option.some.inj hinserted
      rw [List.append_nil]
  | cons row more ih =>
      rw [insertAll?_cons] at hinserted
      obtain ⟨middle, hplaced, hrest⟩ := Option.bind_eq_some_iff.mp hinserted
      obtain ⟨-, hrows⟩ := insert?_eq_some_iff.mp hplaced
      have hall := ih hrest
      rw [hrows] at hall
      exact hall.trans (perm_place_append row table.rows more)

/-! ## Order -/

theorem pairwise_ids (table : Table) : table.ids.Pairwise fun a b => a.key < b.key := by
  rw [ids, List.pairwise_map]
  simpa using table.sorted

theorem ascending (hsmall : ∀ id ∈ table.ids, id.toNat < RecordId.bound) :
    table.ids.Pairwise (· < ·) := by
  refine table.pairwise_ids.imp_of_mem fun hmem _ hless => ?_
  obtain ⟨hlarge, -⟩ | ⟨-, hless⟩ := RecordId.key_lt_key_iff.mp hless
  · exact absurd hlarge (Nat.not_le_of_lt (hsmall _ hmem))
  · exact hless

theorem pairwise_locate (table : Table) (location : String) :
    (table.locate location).Pairwise fun a b => a.key < b.key := by
  rw [locate, List.pairwise_map]
  simpa using List.Pairwise.filter _ table.sorted

theorem lastId_cases (table : Table) :
    table.ids = [] ∧ table.lastId = ⟨0⟩ ∨ ∃ front, table.ids = front ++ [table.lastId] := by
  obtain hnone | ⟨front, row, hall⟩ := List.eq_nil_or_concat table.rows
  · exact .inl ⟨by rw [ids, hnone, List.map_nil], by rw [lastId, greatestKey, hnone]; rfl⟩
  · refine .inr ⟨front.map fun row => .ofKey row.key, ?_⟩
    simp [ids, lastId, greatestKey, hall]

theorem lastId_of_empty (hempty : table.ids = []) : table.lastId = ⟨0⟩ := by
  obtain ⟨-, hzero⟩ | ⟨front, hall⟩ := table.lastId_cases
  · exact hzero
  · simp [hempty] at hall

theorem lastId_mem (hfilled : table.ids ≠ []) : table.lastId ∈ table.ids := by
  obtain ⟨hempty, -⟩ | ⟨front, hall⟩ := table.lastId_cases
  · exact absurd hempty hfilled
  · rw [hall]
    exact List.mem_append_right front (List.mem_singleton_self _)

theorem toNat_lastId_lt (hsmall : ∀ id ∈ table.ids, id.toNat < RecordId.bound) :
    table.lastId.toNat < RecordId.bound := by
  by_cases hempty : table.ids = []
  · rw [lastId_of_empty hempty]
    decide
  · exact hsmall _ (lastId_mem hempty)

theorem key_le_lastId (hmem : id ∈ table.ids) :
    id.key.toInt ≤ table.lastId.key.toInt := by
  obtain ⟨hempty, -⟩ | ⟨front, hall⟩ := table.lastId_cases
  · rw [hempty] at hmem
    cases hmem
  · have horder := table.pairwise_ids
    rw [hall] at horder hmem
    obtain hbefore | hlast := List.mem_append.mp hmem
    · have hless := (List.pairwise_append.mp horder).2.2 id hbefore _ (List.mem_singleton_self _)
      exact Int.le_of_lt (Int64.lt_iff_toInt_lt.mp hless)
    · obtain rfl := List.mem_singleton.mp hlast
      exact Int.le_refl _

/-- The identifier of the greatest key is the greatest one that is small. -/
theorem le_lastId (hmem : id ∈ table.ids) (hsmall : id.toNat < RecordId.bound) :
    id.toNat ≤ table.lastId.toNat ∧ table.lastId.toNat < RecordId.bound := by
  have hle := key_le_lastId hmem
  rw [RecordId.toInt_key hsmall] at hle
  rcases Nat.lt_or_ge table.lastId.toNat RecordId.bound with hsmall' | hlarge
  · rw [RecordId.toInt_key hsmall'] at hle
    exact ⟨Int.ofNat_le.mp hle, hsmall'⟩
  · have hword := table.lastId.toNat_lt
    rw [RecordId.toInt_key_of_large hlarge] at hle
    omega

end Table

end Provenance
