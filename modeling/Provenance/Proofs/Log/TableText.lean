import Provenance.Log.TableText
import Provenance.Proofs.Json.Lossless
import Provenance.Proofs.Log.Table

/-! # The file of a table is read back

A row is written without a newline, so its line is told from those beside it, and the rows come
back one by one. They are in the order of their keys, so each goes behind those before it.
-/

namespace Provenance

theorem Text.lines_append {line : List Char} (hunbroken : '\n' ∉ line) (rest : List Char) :
    lines (line ++ '\n' :: rest) = line :: lines rest := by
  induction line with
  | nil => rfl
  | cons c line ih =>
      rw [List.mem_cons, not_or] at hunbroken
      rw [List.cons_append, lines, ih hunbroken.2]
      exact fun hsame => hunbroken.1 hsame.symm

namespace Json

theorem newline_notMem_escapedChar (c : Char) : '\n' ∉ escapedChar c := by
  have hdigit : ∀ n < 16, hexDigit n ≠ '\n' := by decide
  unfold escapedChar
  split_ifs with _ _ _ _ other _ _ control <;> try decide
  · have hhigh := hdigit (c.toNat / 16) (by omega)
    have hlow := hdigit (c.toNat % 16) (by omega)
    simp [hhigh.symm, hlow.symm]
  · simpa using Ne.symm other

theorem newline_notMem_stringText (s : String) : '\n' ∉ stringText s := by
  simp [stringText, newline_notMem_escapedChar]

theorem newline_notMem_intText (n : Int) : '\n' ∉ Number.intText n := by
  have hdigits (n : Nat) : '\n' ∉ Nat.toDigits 10 n := fun hmem =>
    absurd (isDigit_of_mem_toDigits hmem) (by decide)
  cases n with
  | ofNat n => exact hdigits n
  | negSucc n => simpa [Number.intText] using hdigits (n + 1)

end Json

theorem Row.newline_notMem_compact (row : Row) : '\n' ∉ row.toJson.compact := by
  obtain ⟨key, kind, location, body⟩ := row
  cases location <;>
    simp [toJson, Json.compact, Json.compactItems, Json.scalarText, Json.int, Number.text,
      Json.newline_notMem_intText, Json.newline_notMem_stringText]

theorem Row.levels_toJson (row : Row) : row.toJson.levels = 1 := by
  obtain ⟨key, kind, location, body⟩ := row
  cases location <;> rfl

open Json.Decode in
/-- A row is read back from its line. -/
theorem Row.read_compact (row : Row) :
    (Json.Tree.read (String.ofList row.toJson.compact)).bind decode = some row := by
  have hshallow : row.toJson.levels ≤ Json.deepest := by
    rw [row.levels_toJson]
    decide
  have hfaithful : Faithful decode row.toJson row := by
    obtain ⟨key, kind, location, body⟩ := row
    have hnumber := faithful_signed key
    cases location with
    | none | some =>
        refine ⟨⟨?_, ?_⟩, ?_⟩
        · simp [toJson, Json.toTree, Json.itemTrees, decode, hnumber.decoded, string, nullable]
        · simp [toJson, Json.toTree]
        · simp [toJson, Json.isPlain, Json.itemsPlain, hnumber.plain]
  exact hfaithful.read_render hshallow

namespace Table

/-- The lines of rows, each with its end. -/
def rowLines (rows : List Row) : List Char :=
  rows.flatMap fun row => row.toJson.compact ++ ['\n']

theorem toList_foldl_render (rows : List Row) (text : String) :
    (rows.foldl (fun text row => text ++ row.toJson.render ++ "\n") text).toList =
      text.toList ++ rowLines rows := by
  induction rows generalizing text with
  | nil => simp [rowLines]
  | cons row rows ih =>
      rw [List.foldl_cons, ih]
      simp [rowLines, Json.render]

theorem toList_render (table : Table) :
    table.render.toList = heading.toList ++ '\n' :: rowLines table.rows := by
  rw [render, toList_foldl_render]
  simp

theorem lines_rowLines (rows : List Row) :
    Text.lines (rowLines rows) = rows.map (·.toJson.compact) := by
  induction rows with
  | nil => rfl
  | cons row rows ih =>
      have hline := Text.lines_append row.newline_notMem_compact (rowLines rows)
      rw [List.map_cons, ← ih, ← hline]
      simp [rowLines]

theorem mapM_read_compact (rows : List Row) :
    (rows.map (·.toJson.compact)).mapM (fun line =>
      (Json.Tree.read (String.ofList line)).bind Row.decode) = some rows := by
  induction rows with
  | nil => rfl
  | cons row rows ih =>
      rw [List.map_cons, List.mapM_cons, row.read_compact, ih]
      rfl

/-- A table is read back from its file. -/
theorem read_render (table : Table) : read table.render = some table := by
  have hlines : Text.lines table.render.toList =
      heading.toList :: table.rows.map (·.toJson.compact) := by
    have hunbroken : '\n' ∉ heading.toList := by decide
    rw [toList_render, Text.lines_append hunbroken, lines_rowLines]
  obtain ⟨later, hinserted, hrows⟩ := @exists_insertAll?_of_increasing {} table.rows table.sorted
  obtain rfl : later = table := Table.ext hrows
  simp only [read, hlines, if_true, mapM_read_compact]
  exact hinserted

end Table

end Provenance
