import Provenance.Decimal.Layout
import Provenance.Json.Basic

/-! # Numbers in JSON text

An integer literal that fits 64 bits is an integer. Every other literal is read as a
floating-point number: the digits that fit 64 bits, scaled by a power of ten. A number is
written with the fewest digits that read back, and a floating-point number always has a
point or an exponent.
-/

namespace Provenance.Number

/-- The largest unsigned integer of 64 bits. -/
def greatest : Nat := 0xFFFFFFFFFFFFFFFF

/-- The value of a decimal digit. -/
def digitValue (c : Char) : Nat := c.toNat - '0'.toNat

/-- The number that a list of decimal digits stands for. -/
def ofDigits (digits : List Char) : Nat :=
  digits.foldl (fun n c => 10 * n + digitValue c) 0

/-- Takes up digits as long as the number stays within 64 bits. Gives the number, how many
    digits it took up, and how many it left. -/
def absorb : Nat → List Char → Nat × Nat × Nat
  | n, [] => (n, 0, 0)
  | n, c :: rest =>
    let next := 10 * n + digitValue c
    if next ≤ greatest then
      let (total, taken, left) := absorb next rest
      (total, taken + 1, left)
    else (n, 0, rest.length + 1)

/-- The number `significand · 10 ^ exponent`, unless it is too large. A negative exponent
    below `-308` is divided out in steps, which leaves zero after the second. -/
def scaled (significand : Nat) (exponent : Int) : Option Float :=
  let f := (UInt64.ofNat significand).toFloat
  let power (e : Int) : Float := Float.ofScientific 1 false e.toNat
  if 0 ≤ exponent then
    if exponent ≤ 308 then
      let product := f * power exponent
      if product.isInf then none else some product
    else if significand = 0 then some f else none
  else if -308 ≤ exponent then some (f / power (-exponent))
  else if -616 ≤ exponent then some (f / power 308 / power (-exponent - 308))
  else some 0.0

/-- The parts of a number literal. -/
structure Literal where
  negative : Bool
  /-- The digits before the point. -/
  whole : List Char
  /-- The digits after the point. -/
  fraction : List Char
  /-- The exponent: whether it is negative, and its digits. -/
  exponent : Option (Bool × List Char)

/-- Whether the literal has neither a point nor an exponent. -/
def Literal.isWhole (l : Literal) : Bool := l.fraction.isEmpty && l.exponent.isNone

/-- The floating-point number of a literal: the digits beyond 64 bits count before the point
    by their place alone, and after it not at all. An exponent beyond 32 bits leaves zero or
    is too large. -/
def Literal.real? (l : Literal) : Option Float :=
  let (whole, _, cut) := absorb 0 l.whole
  let (significand, taken, _) := absorb whole l.fraction
  let places : Int := (cut : Int) - taken
  let magnitude : Option Float :=
    match l.exponent with
    | none => scaled significand places
    | some (negative, digits) =>
      let e := ofDigits digits
      if e < 0x80000000 then scaled significand (if negative then places - e else places + e)
      else if negative || significand = 0 then some 0.0 else none
  magnitude.map fun f => if l.negative then -f else f

/-- The number of a literal; there is none if it is too large. -/
def ofLiteral? (l : Literal) : Option Number :=
  let n := ofDigits l.whole
  if l.isWhole && !l.negative && n ≤ greatest then some (.int n)
  else if l.isWhole && l.negative && 0 < n && n ≤ 0x8000000000000000 then some (.int (-n))
  else l.real?.map .real

/-- Floating-point numbers are written out from `10 ^ -5` up to `10 ^ 16`. -/
def layout : Decimal.Layout := ⟨-4, 16, ['+']⟩

/-- The text of a finite floating-point number. -/
def realText (f : Float) : List Char := Decimal.realText layout.text f

/-- The text of an integer. -/
def intText : Int → List Char
  | .ofNat n => Nat.toDigits 10 n
  | .negSucc n => '-' :: Nat.toDigits 10 (n + 1)

/-- The text of a number. -/
def text : Number → List Char
  | .int n => intText n
  | .real f => realText f

end Provenance.Number
