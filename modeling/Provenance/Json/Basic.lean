import Provenance.Named

/-! # JSON values

Objects keep the order of their members. Numbers are integers of 64 bits, signed or not,
or binary floating-point numbers.
-/

namespace Provenance

/-- A number: an integer from `-2 ^ 63` to `2 ^ 64 - 1`, or a floating-point number. -/
inductive Number where
  | int (value : Int)
  | real (value : Float)
  deriving Inhabited

/-- A JSON value. -/
inductive Json where
  | null
  | bool (value : Bool)
  | num (value : Number)
  | str (value : String)
  | arr (items : List Json)
  | obj (members : List (String × Json))
  deriving Inhabited

namespace Json

/-- The integer `n` as a value. -/
def int (n : Int) : Json := .num (.int n)

/-- The natural number `n` as a value. -/
def nat (n : Nat) : Json := .num (.int n)

/-- A member that is left out when there is no value for it. -/
def field? (name : String) (value : Option Json) : List (String × Json) :=
  match value with
  | some value => [(name, value)]
  | none => []

/-- The text, if the value is one. -/
def str? : Json → Option String
  | .str s => some s
  | _ => none

/-- The member of that name, if the value is an object that has one. -/
def get? (name : String) : Json → Option Json
  | .obj members => Named.get? name members
  | _ => none

end Json

end Provenance
