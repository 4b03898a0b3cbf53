import Provenance.Decimal.Shortest

/-! # Layout of decimals

How the digits of a decimal and the place of its point become text: written out with a
point as long as the point stays near the digits, and with an exponent otherwise.
-/

namespace Provenance.Decimal

/-- The place of the point, counted from the first digit. -/
def Digits.place (d : Digits) : Int := (Nat.toDigits 10 d.value).length + d.exponent

/-- The text of a positive decimal that is written out. There is a digit on both sides of
    the point. -/
def Digits.spread (d : Digits) : List Char :=
  let digits := Nat.toDigits 10 d.value
  if 0 ≤ d.exponent then digits ++ List.replicate d.exponent.toNat '0' ++ ['.', '0']
  else if 0 < d.place then digits.take d.place.toNat ++ '.' :: digits.drop d.place.toNat
  else ['0', '.'] ++ List.replicate (-d.place).toNat '0' ++ digits

/-- The text of a positive decimal with an exponent: one digit stands before the point. `plus`
    is the sign of an exponent that is not negative. -/
def Digits.scientific (plus : List Char) (d : Digits) : List Char :=
  let exponent := d.place - 1
  let power := 'e' :: (if exponent < 0 then [] else plus) ++ (toString exponent).toList
  match Nat.toDigits 10 d.value with
  | [] => power
  | [digit] => digit :: power
  | digit :: rest => digit :: '.' :: rest ++ power

/-- Where the written-out form ends on both sides, and how an exponent is written. -/
structure Layout where
  /-- The last place before the first digit that is written out. -/
  leastPlace : Int
  /-- The last place after the first digit that is written out. -/
  greatestPlace : Int
  /-- The sign of an exponent that is not negative. -/
  plus : List Char

/-- The text of a positive decimal. -/
def Layout.text (layout : Layout) (d : Digits) : List Char :=
  if layout.leastPlace ≤ d.place && d.place ≤ layout.greatestPlace then d.spread
  else d.scientific layout.plus

/-- The text of a finite floating-point number whose digits are laid out by `positive`. Zero
    has a sign as well. -/
def realText (positive : Digits → List Char) (f : Float) : List Char :=
  let bits := f.toBits
  let sign := if bits >>> 63 = 1 then ['-'] else []
  let b := Binary.ofBits bits
  sign ++ if b.mantissa = 0 then ['0', '.', '0'] else positive (shortest b)

end Provenance.Decimal
