import Provenance.Log.Table
import Provenance.Text.Lines

/-! # Tables in files

The file of a table has a heading and then one line for each row. A file with one byte at
most is a table without rows that is yet to be written.
-/

namespace Provenance

/-- The row as a list of what it holds. -/
def Row.toJson (row : Row) : Json :=
  .arr [.int row.key.toInt, .str row.kind,
    match row.location with
    | some location => .str location
    | none => .null,
    .str row.body]

open Json.Decode in
/-- Reads a row. -/
def Row.decode : Json.Decoder Row
  | .arr [key, kind, location, body] => do
    pure {
      key := ← signed key
      kind := ← string kind
      location := ← nullable string location
      body := ← string body }
  | _ => none

namespace Table

/-- The first line of the file of a table. -/
def heading : String := "provenance table 1"

/-- The text of the file of a table. -/
def render (table : Table) : String :=
  table.rows.foldl (fun text row => text ++ row.toJson.render ++ "\n") (heading ++ "\n")

/-- Whether a file is that of a table that is yet to be written. -/
def isBlank (text : String) : Bool := text.utf8ByteSize ≤ 1

/-- Whether a text begins like the file of a table. -/
def isWritten (text : String) : Bool := text.startsWith (heading ++ "\n")

/-- Reads the file of a table that is written. -/
def read (text : String) : Option Table :=
  match Text.lines text.toList with
  | [] => none
  | first :: rest =>
    if first = heading.toList then do
      let rows ← rest.mapM fun line => (Json.Tree.read (String.ofList line)).bind Row.decode
      Table.insertAll? {} rows
    else none

end Table

end Provenance
