import Provenance.Json.Tree

/-! # Reading typed values out of JSON

A decoder says whether a tree fits a type, and as which value. A structure is an object
with its fields by name, or an array with its fields in order. A choice is the name of an
alternative, or an object with one member: the name, and what belongs to it.
-/

namespace Provenance.Json

/-- Reads a tree as a value of a type; `none` if it does not fit. -/
abbrev Decoder (α : Type) := Tree → Option α

namespace Decode

variable {α β : Type}

/-- An integer from zero to a bound. -/
def natUpTo (bound : Nat) : Decoder Nat
  | .num (.int n) => if 0 ≤ n ∧ n ≤ bound then some n.toNat else none
  | _ => none

/-- A natural number of 64 bits. -/
def nat : Decoder Nat := natUpTo 0xFFFFFFFFFFFFFFFF

/-- An unsigned word of 64 bits. -/
def word : Decoder UInt64 := fun tree => (nat tree).map UInt64.ofNat

/-- An unsigned word of 32 bits. -/
def word32 : Decoder UInt32 := fun tree => (natUpTo 0xFFFFFFFF tree).map UInt32.ofNat

/-- A signed word of 64 bits. -/
def signed : Decoder Int64
  | .num (.int n) =>
    if -0x8000000000000000 ≤ n ∧ n < 0x8000000000000000 then some (Int64.ofInt n) else none
  | _ => none

/-- Text. -/
def string : Decoder String
  | .str s => some s
  | _ => none

/-- A list. -/
def list (decode : Decoder α) : Decoder (List α)
  | .arr items => items.mapM decode
  | _ => none

/-- A value or null. -/
def nullable (decode : Decoder α) : Decoder (Option α)
  | .null => some none
  | tree => (decode tree).map some

/-- Values under names; of repeated names the last one counts. -/
def named (decode : Decoder α) : Decoder (Named α)
  | .obj members =>
    (members.mapM fun member => (decode member.2).map (member.1, ·)).map Named.distinct
  | _ => none

/-- What is there for one field of a structure. -/
inductive Slot where
  /-- The field is there. -/
  | given (tree : Tree)
  /-- The object has no member of the field's name. -/
  | absent
  /-- The array ended before the field. -/
  | cut

/-- What an object has for a field; a repeated field does not fit. -/
def slot (members : List (String × Tree)) (name : String) : Option Slot :=
  match members.filter (·.1 == name) with
  | [] => some .absent
  | [(_, tree)] => some (.given tree)
  | _ => none

/-- What is there for each field of a structure. Other members are passed over; an array may
    end early but not go on after the last field. -/
def slots (fields : List String) : Decoder (List Slot)
  | .obj members => fields.mapM (slot members)
  | .arr items =>
    if items.length ≤ fields.length then
      some (items.map .given ++ List.replicate (fields.length - items.length) .cut)
    else none
  | _ => none

/-- A field that has to be there. -/
def required (decode : Decoder α) : Slot → Option α
  | .given tree => decode tree
  | _ => none

/-- A field that has a value of its own when it is missing. -/
def withDefault (default : α) (decode : Decoder α) : Slot → Option α
  | .given tree => decode tree
  | _ => some default

/-- A field that may be missing or null. -/
def optional (decode : Decoder α) : Slot → Option (Option α) :=
  withDefault none (nullable decode)

/-- A field that may be null, and may be missing from an object but not from an array. -/
def maybeNull (decode : Decoder α) : Slot → Option (Option α)
  | .given tree => nullable decode tree
  | .absent => some none
  | .cut => none

/-- The name of an alternative, and what belongs to it, if anything is given. -/
def alternative : Decoder (String × Option Tree)
  | .str name => some (name, none)
  | .obj [(name, tree)] => some (name, some tree)
  | _ => none

/-- Checks that nothing belongs to an alternative: null, or nothing at all. -/
def nothing : Option Tree → Option Unit
  | none => some ()
  | some .null => some ()
  | some _ => none

/-- One of several names. -/
def choice (ofName : String → Option α) : Decoder α := fun tree => do
  let (name, body) ← alternative tree
  nothing body
  ofName name

end Decode

end Provenance.Json
