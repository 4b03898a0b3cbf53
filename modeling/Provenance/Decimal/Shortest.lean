/-! # The shortest decimal that reads back

A binary floating-point number is `mantissa · 2 ^ exponent`. The decimals that read back
as it form an interval around it. For one digit, two digits, and so on, the two decimals
of that many digits next to the number are tried; the first count with one of them inside
the interval gives the answer, the nearer of two, and of two equally near the even one.
All arithmetic is exact, on natural numbers.
-/

namespace Provenance.Decimal

/-- The number `mantissa · 2 ^ exponent`. -/
structure Binary where
  mantissa : Nat
  exponent : Int
  /-- Whether the next smaller number is only half as far away as the next larger one. -/
  closerBelow : Bool

/-- The decimal `value · 10 ^ exponent`. -/
structure Digits where
  value : Nat
  exponent : Int
  deriving DecidableEq, Repr

/-- The absolute value of the finite number whose 64 bits are given. -/
def Binary.ofBits (bits : UInt64) : Binary :=
  let field := (bits >>> 52).toNat % 2048
  let fraction := bits.toNat % 0x10000000000000
  if field = 0 then ⟨fraction, -1074, false⟩
  else ⟨fraction + 0x10000000000000, (field : Int) - 1075, fraction = 0 && field > 1⟩

/-- A fraction of natural numbers. -/
structure Ratio where
  num : Nat
  den : Nat

/-- The quarters of a unit in the last place of `b`, as a fraction. -/
def Binary.quarters (b : Binary) (count : Nat) : Ratio :=
  let e := b.exponent - 2
  if 0 ≤ e then ⟨count * Nat.pow 2 e.toNat, 1⟩ else ⟨count, Nat.pow 2 (-e).toNat⟩

/-- The fraction measured in units of `10 ^ e`. -/
def Ratio.over (r : Ratio) (e : Int) : Ratio :=
  if 0 ≤ e then ⟨r.num, r.den * Nat.pow 10 e.toNat⟩
  else ⟨r.num * Nat.pow 10 (-e).toNat, r.den⟩

/-- How many decimal digits a natural number has; zero has none. -/
def digitCount (n : Nat) : Nat := if n = 0 then 0 else (Nat.toDigits 10 n).length

/-- The least `j` below `bound` with `1 ≤ r · 10 ^ j`. -/
def leadingZeros (r : Ratio) (bound : Nat) : Nat :=
  ((List.range bound).find? fun j => r.den ≤ r.num * Nat.pow 10 j).getD bound

/-- The place of the decimal point, counted from the first digit: `10 ^ (p-1) ≤ r < 10 ^ p`. -/
def pointPlace (r : Ratio) : Int :=
  if r.den ≤ r.num then digitCount (r.num / r.den) else 1 - (leadingZeros r 400 : Int)

/-- Whether `n` units of `10 ^ e` read back as `b`. -/
def readsBack (b : Binary) (e : Int) (n : Nat) : Bool :=
  let low := (b.quarters (4 * b.mantissa - if b.closerBelow then 1 else 2)).over e
  let high := (b.quarters (4 * b.mantissa + 2)).over e
  if b.mantissa % 2 = 0 then low.num ≤ n * low.den && n * high.den ≤ high.num
  else low.num < n * low.den && n * high.den < high.num

/-- The nearer of `n` and `n + 1` to the fraction, and the even one if both are as near. -/
def nearer (r : Ratio) (n : Nat) : Nat :=
  let twice := 2 * r.num
  let middle := (2 * n + 1) * r.den
  if twice < middle then n else if middle < twice then n + 1 else n + n % 2

/-- The decimal in units of `10 ^ e` that reads back as `b`, if there is one. -/
def onGrid? (b : Binary) (e : Int) : Option Digits :=
  let r := (b.quarters (4 * b.mantissa)).over e
  let n := r.num / r.den
  match readsBack b e n, readsBack b e (n + 1) with
  | true, true => some ⟨nearer r n, e⟩
  | true, false => some ⟨n, e⟩
  | false, true => some ⟨n + 1, e⟩
  | false, false => none

/-- The decimal without the zeros at the end of its digits, at most `bound` of them. -/
def Digits.trim : Nat → Digits → Digits
  | 0, d => d
  | bound + 1, d =>
    if d.value ≠ 0 && d.value % 10 = 0 then trim bound ⟨d.value / 10, d.exponent + 1⟩ else d

/-- The decimal with the fewest digits that reads back as the positive number `b`. -/
def shortest (b : Binary) : Digits :=
  let place := pointPlace (b.quarters (4 * b.mantissa))
  let grids := (List.range 17).map fun n : Nat => place - (n + 1 : Int)
  ((grids.findSome? (onGrid? b)).getD ⟨b.mantissa, 0⟩).trim 20

end Provenance.Decimal
