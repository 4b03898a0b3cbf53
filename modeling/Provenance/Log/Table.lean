import Provenance.Record.Codec
import Provenance.Log.Basic

/-! # Tables of records

A table keeps one row for each record, under a signed key. Rows are put in all together or
not at all.
-/

namespace Provenance

/-- A row: the written form of a record, and what it is looked up by. -/
structure Row where
  key : Int64
  kind : String
  location : Option String
  body : String
  deriving DecidableEq, Repr, Inhabited

/-- The key of an identifier: the same word, read as a signed one. -/
def RecordId.key (id : RecordId) : Int64 := id.val.toInt64

/-- The identifier of a key. -/
def RecordId.ofKey (key : Int64) : RecordId := ⟨key.toUInt64⟩

/-- The row of a record. -/
def Row.ofRecord (record : Record) : Row where
  key := record.id.key
  kind := record.kind.tag
  location := record.locationKey
  body := record.render

/-- Rows with distinct keys, in the order of their keys. -/
@[ext]
structure Table where
  rows : List Row
  sorted : rows.Pairwise (·.key < ·.key)
  deriving DecidableEq, Repr

namespace Table

instance : EmptyCollection Table := ⟨⟨[], .nil⟩⟩

instance : Inhabited Table := ⟨{}⟩

/-- The row of a key. -/
def get? (table : Table) (key : Int64) : Option Row := table.rows.find? (·.key = key)

/-- Puts a row into its place among sorted rows. -/
def place (row : Row) : List Row → List Row
  | [] => [row]
  | other :: rest => if row.key < other.key then row :: other :: rest else other :: place row rest

theorem perm_place (row : Row) (rows : List Row) : (place row rows).Perm (row :: rows) := by
  induction rows with
  | nil => exact .refl _
  | cons other rows ih =>
      rw [place]
      split
      · exact .refl _
      · exact (ih.cons other).trans (.swap row other rows)

theorem sorted_place {row : Row} {rows : List Row} (hsorted : rows.Pairwise (·.key < ·.key))
    (hfresh : ∀ other ∈ rows, other.key ≠ row.key) :
    (place row rows).Pairwise (·.key < ·.key) := by
  induction rows with
  | nil => exact List.pairwise_singleton _ _
  | cons other rows ih =>
      obtain ⟨habove, hrest⟩ := List.pairwise_cons.mp hsorted
      obtain ⟨hapart, hfresh⟩ := List.forall_mem_cons.mp hfresh
      rw [place]
      split
      · rename_i hless
        exact List.pairwise_cons.mpr ⟨List.forall_mem_cons.mpr
          ⟨hless, fun next hmem => Int64.lt_trans hless (habove next hmem)⟩, hsorted⟩
      · rename_i hnotLess
        have hgreater : other.key < row.key := by
          rw [Int64.lt_iff_toInt_lt] at hnotLess ⊢
          have hunlike : other.key.toInt ≠ row.key.toInt :=
            fun hsame => hapart (Int64.toInt_inj.mp hsame)
          omega
        refine List.pairwise_cons.mpr ⟨fun next hmem => ?_, ih hrest hfresh⟩
        obtain rfl | hmem := List.mem_cons.mp ((perm_place row rows).mem_iff.mp hmem)
        · exact hgreater
        · exact habove next hmem

theorem get?_eq_none_iff {table : Table} {key : Int64} :
    table.get? key = none ↔ ∀ row ∈ table.rows, row.key ≠ key := by
  simp [get?]

/-- Puts in a row, unless its key is taken. -/
def insert? (table : Table) (row : Row) : Option Table :=
  match htaken : table.get? row.key with
  | some _ => none
  | none => some ⟨place row table.rows, sorted_place table.sorted (get?_eq_none_iff.mp htaken)⟩

/-- Puts in all the rows, unless the key of one is taken. -/
def insertAll? (table : Table) (rows : List Row) : Option Table := rows.foldlM insert? table

/-- The table without the row of a key, and how many rows that took away. No log takes a row away;
    this is what others may do to the file of a table. -/
def erase (table : Table) (key : Int64) : Table × Nat :=
  let rows := table.rows.filter (·.key ≠ key)
  (⟨rows, table.sorted.filter _⟩, table.rows.length - rows.length)

/-- The greatest key, or zero if there is no row. -/
def greatestKey (table : Table) : Int64 :=
  match table.rows.getLast? with
  | some row => row.key
  | none => 0

/-- The identifiers of the rows with a source location of the given key, in the order of
    their keys. -/
def locate (table : Table) (location : String) : List RecordId :=
  (table.rows.filter (·.location = some location)).map fun row => .ofKey row.key

/-- The record of a row, if the row holds the record of its key. -/
def load (table : Table) (id : RecordId) : Except LogError (Option Record) :=
  match table.get? id.key with
  | none => .ok none
  | some row =>
    match Record.read row.body with
    | none => .error .unreadableRow
    | some record => if record.id = id then .ok (some record) else .error (.corrupt id record.id)

end Table

end Provenance
