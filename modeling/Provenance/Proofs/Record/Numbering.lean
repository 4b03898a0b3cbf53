import Mathlib.Data.List.Nodup
import Mathlib.Data.List.Range
import Provenance.Proofs.Record.Batch

/-! # Numbered records

A log numbers its records from one on, without gaps. As long as the numbers fit, they tell the
records apart and say how many came before.
-/

namespace Provenance

/-- The identifiers of the records are one, two, three and so on. -/
def Numbered (records : List Record) : Prop :=
  records.map (·.id) = (List.range records.length).map RecordId.first.offset

namespace Numbered

variable {records others : List Record} {record : Record} {id : RecordId}

theorem nil : Numbered [] := rfl

theorem left (hnumbered : Numbered (records ++ others)) : Numbered records := by
  have hids := congrArg (List.take records.length) hnumbered
  rw [List.map_append, List.take_left' (List.length_map _), ← List.map_take, List.take_range,
    List.length_append, Nat.min_eq_left (Nat.le_add_right _ _)] at hids
  exact hids

/-- An accepted batch goes on with the numbers. -/
theorem append_of_resolveBatch {batch : List Draft} (hnumbered : Numbered records)
    (hresolved : resolveBatch (RecordId.first.offset records.length) batch = .ok others) :
    Numbered (records ++ others) := by
  have hids := ids_of_resolveBatch hresolved
  have hoffsets : (List.range batch.length).map (RecordId.first.offset records.length).offset =
      (List.range batch.length).map (RecordId.first.offset <| records.length + ·) :=
    List.map_congr_left fun i _ => RecordId.offset_add _ _ _
  unfold Numbered at hnumbered ⊢
  rw [List.map_append, hnumbered, hids, hoffsets, List.length_append,
    length_of_resolveBatch hresolved, List.range_add, List.map_append, List.map_map]
  rfl

section Room

variable (hnumbered : Numbered records) (hroom : records.length < UInt64.size)

include hnumbered hroom

theorem map_toNat : records.map (·.id.toNat) = List.range' 1 records.length := by
  have hnumbers : records.map (·.id.toNat) = (records.map (·.id)).map RecordId.toNat := by
    rw [List.map_map]
    rfl
  rw [hnumbers, hnumbered, List.map_map, List.range'_eq_map_range]
  apply List.map_congr_left
  intro i hinside
  have := List.mem_range.mp hinside
  rw [Function.comp_apply, RecordId.toNat_first_offset (by omega), Nat.add_comm]

theorem pairwise_toNat : records.Pairwise (·.id.toNat < ·.id.toNat) := by
  have hincreasing := List.pairwise_lt_range' (s := 1) (n := records.length)
  rw [← hnumbered.map_toNat hroom] at hincreasing
  exact List.pairwise_map.mp hincreasing

theorem toNat_of_mem (hmem : record ∈ records) :
    1 ≤ record.id.toNat ∧ record.id.toNat ≤ records.length := by
  have hlisted : record.id.toNat ∈ records.map (·.id.toNat) := List.mem_map_of_mem hmem
  rw [hnumbered.map_toNat hroom, List.mem_range'_1] at hlisted
  omega

theorem exists_record (hpositive : 1 ≤ id.toNat) (hle : id.toNat ≤ records.length) :
    ∃ record ∈ records, record.id = id := by
  have hlisted : id.toNat ∈ List.range' 1 records.length := by
    rw [List.mem_range'_1]
    omega
  rw [← hnumbered.map_toNat hroom] at hlisted
  obtain ⟨record, hmem, hsame⟩ := List.mem_map.mp hlisted
  exact ⟨record, hmem, RecordId.toNat_injective hsame⟩

theorem eq_of_id_eq {one other : Record} (hmem : one ∈ records) (hlisted : other ∈ records)
    (hsame : one.id = other.id) : one = other := by
  have hnodup : (records.map (·.id.toNat)).Nodup := by
    rw [hnumbered.map_toNat hroom]
    exact List.nodup_range'
  exact List.inj_on_of_nodup_map hnodup hmem hlisted (congrArg RecordId.toNat hsame)

theorem find?_eq_some_iff :
    records.find? (·.id = id) = some record ↔ record ∈ records ∧ record.id = id := by
  constructor
  · intro hfound
    exact ⟨List.mem_of_find?_eq_some hfound, by simpa using List.find?_some hfound⟩
  · rintro ⟨hmem, rfl⟩
    cases hfound : records.find? (·.id = record.id) with
    | none => exact absurd (by simp) (List.find?_eq_none.mp hfound record hmem)
    | some other =>
        have hlisted := List.mem_of_find?_eq_some hfound
        have hsame : other.id = record.id := by simpa using List.find?_some hfound
        rw [hnumbered.eq_of_id_eq hroom hlisted hmem hsame]

end Room

end Numbered

end Provenance
