/-! # Unsigned words in text

Decimal digits, with one plus sign allowed in front.
-/

namespace Provenance.Text

/-- Why a text is no unsigned word. -/
inductive NumberError where
  | empty
  | invalidDigit
  | tooLarge
  deriving DecidableEq, Repr

/-- The wording of the error. -/
def NumberError.message : NumberError → String
  | .empty => "cannot parse integer from empty string"
  | .invalidDigit => "invalid digit found in string"
  | .tooLarge => "number too large to fit in target type"

/-- Reads digits after a number has been read, up to the first that is wrong or too much. -/
def readDigits (n : Nat) : List Char → Except NumberError Nat
  | [] => .ok n
  | c :: rest =>
    if c.isDigit then
      let next := 10 * n + (c.toNat - '0'.toNat)
      if next < 0x10000000000000000 then readDigits next rest else .error .tooLarge
    else .error .invalidDigit

/-- Reads an unsigned word of 64 bits. -/
def readWord : List Char → Except NumberError UInt64
  | [] => .error .empty
  | ['+'] => .error .invalidDigit
  | '+' :: rest => (readDigits 0 rest).map UInt64.ofNat
  | text => (readDigits 0 text).map UInt64.ofNat

end Provenance.Text
