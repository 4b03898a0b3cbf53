/-! # Durations in text

A duration of milliseconds is written in the largest unit of which it has a whole one,
seconds with a decimal fraction, and zero in the smallest unit.
-/

namespace Provenance.Text

/-- The digits of thousandths after a decimal point, without the zeros at the end. -/
def thousandths (n : Nat) : List Char :=
  let digits := [Nat.digitChar (n / 100), Nat.digitChar (n / 10 % 10), Nat.digitChar (n % 10)]
  (digits.reverse.dropWhile (· == '0')).reverse

/-- The text of a number of milliseconds. -/
def duration (milliseconds : Nat) : String :=
  if milliseconds = 0 then "0ns"
  else if milliseconds < 1000 then String.ofList (Nat.toDigits 10 milliseconds ++ ['m', 's'])
  else
    let fraction := thousandths (milliseconds % 1000)
    String.ofList (Nat.toDigits 10 (milliseconds / 1000)
      ++ (if fraction.isEmpty then [] else '.' :: fraction) ++ ['s'])

end Provenance.Text
