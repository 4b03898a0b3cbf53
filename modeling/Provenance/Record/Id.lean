import Provenance.Text.Natural

/-! # Record identifiers

Identifiers are given out in increasing order, beginning with one, and a record refers
only to smaller ones.
-/

namespace Provenance

/-- The identifier of a record. -/
structure RecordId where
  val : UInt64
  deriving DecidableEq, Repr, Inhabited

namespace RecordId

instance : LT RecordId := ⟨fun a b => a.val < b.val⟩
instance : LE RecordId := ⟨fun a b => a.val ≤ b.val⟩
instance (a b : RecordId) : Decidable (a < b) := inferInstanceAs (Decidable (a.val < b.val))
instance (a b : RecordId) : Decidable (a ≤ b) := inferInstanceAs (Decidable (a.val ≤ b.val))

/-- The identifier of the first record of a log. -/
def first : RecordId := ⟨1⟩

/-- The identifier after this one. -/
def next (id : RecordId) : RecordId := ⟨id.val + 1⟩

/-- The identifier `n` places further on. -/
def offset (id : RecordId) (n : Nat) : RecordId := ⟨id.val + UInt64.ofNat n⟩

/-- The identifier as a natural number. -/
def toNat (id : RecordId) : Nat := id.val.toNat

/-- The identifier after a number sign. -/
def display (id : RecordId) : String :=
  String.ofList ('#' :: Nat.toDigits 10 id.toNat)

/-- Reads an identifier; number signs in front of it are passed over. -/
def parse (text : String) : Except Text.NumberError RecordId :=
  (Text.readWord (text.toList.dropWhile (· == '#'))).map .mk

theorem toNat_lt_iff {a b : RecordId} : a < b ↔ a.toNat < b.toNat := UInt64.lt_iff_toNat_lt

theorem toNat_le_iff {a b : RecordId} : a ≤ b ↔ a.toNat ≤ b.toNat := UInt64.le_iff_toNat_le

theorem toNat_injective {a b : RecordId} (h : a.toNat = b.toNat) : a = b := by
  cases a; cases b
  exact congrArg RecordId.mk (UInt64.toNat_inj.1 h)

end RecordId

end Provenance
