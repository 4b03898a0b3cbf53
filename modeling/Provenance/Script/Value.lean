import Provenance.Json.Number
import Provenance.Script.Syntax
import Provenance.Text.Quoted

/-! # Values of settings scripts

How values are written, and what the operators do with them. Integers have 64 bits; what
does not fit fails, and so does a division by zero. As soon as one operand is
floating-point, so is the result.
-/

namespace Provenance.Script

/-- What an expression stands for. -/
inductive Value where
  | unit
  | bool (value : Bool)
  | int (value : Int64)
  | real (value : Float)
  | char (value : Char)
  | text (value : String)
  | list (items : List Value)
  | map (entries : List (String × Value))
  deriving Inhabited

namespace Value

/-- The name of the type of a value. -/
def type : Value → String
  | unit => "()"
  | bool _ => "bool"
  | int _ => "i64"
  | real _ => "f64"
  | char _ => "char"
  | text _ => "string"
  | list _ => "array"
  | map _ => "map"

/-- The value as a floating-point number, if it is a number. -/
def number? : Value → Option Float
  | int n => some (Float.ofInt n.toInt)
  | real x => some x
  | _ => none

/-- The text of a floating-point number whose digits are laid out by `positive`. -/
def realText (positive : Decimal.Digits → List Char) (x : Float) : String :=
  if x.isNaN then "NaN"
  else if x.isInf then if x < 0 then "-inf" else "inf"
  else String.ofList (Decimal.realText positive x)

/-- The least floating-point number that is written out: `10 ^ -13`, rounded to 32 bits. -/
def leastSpread : Float := 9.9999998245167e-14

/-- The greatest floating-point number that is written out: `10 ^ 13`, rounded to 32 bits. -/
def greatestSpread : Float := 9999999827968.0

/-- The text of a floating-point number by itself. Zero has no sign. -/
def realPiece (x : Float) : String :=
  if x == 0 then "0.0"
  else if x.abs < leastSpread || greatestSpread < x.abs then
    realText (Decimal.Digits.scientific []) x
  else realText Decimal.Digits.spread x

/-- Inside of a list or a map, floating-point numbers are written out from `10 ^ -4` up to
    `10 ^ 16`. -/
def layout : Decimal.Layout := ⟨-3, 16, []⟩

/-- The text between brackets, with commas between the parts. -/
def listed (opening : String) (parts : List String) (closing : String) : String :=
  opening ++ String.intercalate ", " parts ++ closing

mutual

/-- The text of a value inside of a list or a map. -/
def inner : Value → String
  | unit => "()"
  | bool true => "true"
  | bool false => "false"
  | int n => String.ofList (Number.intText n.toInt)
  | real x => realText layout.text x
  | char c => String.singleton c
  | text s => Text.quoted s
  | list items => listed "[" (innerItems items) "]"
  | map entries =>
    let entries := (innerEntries entries).mergeSort fun a b => a.1 ≤ b.1
    listed "#\x7b" (entries.map fun entry => Text.quoted entry.1 ++ ": " ++ entry.2) "\x7d"

/-- The texts of the items of a list. -/
def innerItems : List Value → List String
  | [] => []
  | item :: rest => item.inner :: innerItems rest

/-- The texts of the entries of a map. -/
def innerEntries : List (String × Value) → List (String × String)
  | [] => []
  | (name, value) :: rest => (name, value.inner) :: innerEntries rest

end

/-- The text that a value adds to other text. -/
def piece : Value → String
  | unit => ""
  | real x => realPiece x
  | text s => s
  | other => other.inner

/-- The text without the places where a part begins in it; `skip` characters of such a place
    are still to be left out. -/
def without (part : List Char) : (skip : Nat) → List Char → List Char
  | _, [] => []
  | skip + 1, _ :: rest => without part skip rest
  | 0, c :: rest =>
    if !part.isEmpty && part.isPrefixOf (c :: rest) then without part (part.length - 1) rest
    else c :: without part 0 rest

/-- What is left of a text without a part; nothing leaves the part. -/
def remove (whole part : String) : String :=
  if part.isEmpty then whole
  else if whole.isEmpty then part
  else String.ofList (without part.toList 0 whole.toList)

/-- What is left of a text without a character. -/
def removeChar (whole : String) (c : Char) : String :=
  String.ofList (whole.toList.filter (· ≠ c))

/-- The opposite of a number. -/
def negate : Value → Option Value
  | int n => (word? (-n.toInt)).map int
  | real x => some (real (-x))
  | _ => none

/-- An operator on integers. -/
def onIntegers (op : Operator) (a b : Int) : Option Int64 :=
  match op with
  | .add => word? (a + b)
  | .sub => word? (a - b)
  | .mul => word? (a * b)
  | .div => if b = 0 then none else word? (a.tdiv b)

/-- An operator on floating-point numbers. -/
def onReals (op : Operator) (a b : Float) : Float :=
  match op with
  | .add => a + b
  | .sub => a - b
  | .mul => a * b
  | .div => a / b

/-- An operator on values that are not both numbers: text is joined to any value, lists are
    joined, maps are merged, and text is taken out of text. -/
def onOthers : Operator → Value → Value → Option Value
  | .add, text s, v => some (text (s ++ v.piece))
  | .add, v, text t => some (text (v.piece ++ t))
  | .add, char c, char d => some (text (String.ofList [c, d]))
  | .add, list as, list bs => some (list (as ++ bs))
  | .add, map as, map bs =>
    some (map (bs.foldl (fun known entry => Named.insert entry.1 entry.2 known) as))
  | .sub, text s, text t => some (text (remove s t))
  | .sub, text s, char c => some (text (removeChar s c))
  | _, _, _ => none

/-- What an operator makes of two values. -/
def apply (op : Operator) : Value → Value → Option Value
  | int a, int b => (onIntegers op a.toInt b.toInt).map int
  | a, b =>
    match a.number?, b.number? with
    | some x, some y => some (real (onReals op x y))
    | _, _ => onOthers op a b

/-- What becomes of a variable that is changed by an operator: to a list, anything but another
    list is added as an item. -/
def update : Operator → Value → Value → Option Value
  | .add, list items, list more => some (list (items ++ more))
  | .add, list items, item => some (list (items ++ [item]))
  | op, a, b => apply op a b

/-- What a field of a value holds: the unit if the map has no such entry. Only maps have
    fields. -/
def field? (name : String) : Value → Option Value
  | map entries => some ((Named.get? name entries).getD unit)
  | _ => none

/-- Whether there is something in the place that is reached through fields. -/
def has : (path : List String) → Value → Bool
  | [], _ => true
  | name :: path, map entries => ((Named.get? name entries).map (has path)).getD false
  | _ :: _, _ => false

/-- The value with something else in the place that is reached through fields. -/
def replaceAt (new : Value) : (path : List String) → Value → Option Value
  | [], _ => some new
  | name :: path, map entries => do
    let inner ← replaceAt new path ((Named.get? name entries).getD unit)
    pure (map (Named.insert name inner entries))
  | _ :: _, _ => none

end Value

end Provenance.Script
