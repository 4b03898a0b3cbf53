import Provenance.Markup.Mapper

/-! # Sums and their words

Positions in strings are signed words, and no string is so long that its length is not one. A sum
that is a signed word is the same in every build. Any other sum breaks a checked build off.
-/

namespace Provenance.Markup

/-- No string is as long: its length is a signed word. -/
def lengthLimit : Nat := 0x8000000000000000

theorem toInt_ofNat_of_lt {n : Nat} (hn : n < lengthLimit) : (Int64.ofNat n).toInt = n :=
  Int64.toInt_ofNat_of_lt (Nat.lt_of_lt_of_le hn (by decide))

namespace Origin

variable {sum : Int}

theorem isSigned_iff : isSigned sum = true ↔ -(lengthLimit : Int) ≤ sum ∧ sum < lengthLimit := by
  have hleast : Int64.minValue.toInt = -(lengthLimit : Int) := rfl
  have hmost : Int64.maxValue.toInt = (lengthLimit : Int) - 1 := rfl
  rw [isSigned, hleast, hmost, Bool.and_eq_true, decide_eq_true_eq, decide_eq_true_eq]
  omega

theorem isSigned_toInt (word : Int64) : isSigned word.toInt = true :=
  isSigned_iff.mpr ⟨word.le_toInt, word.toInt_lt⟩

theorem toInt_ofInt_of_isSigned (h : isSigned sum = true) : (Int64.ofInt sum).toInt = sum :=
  Int64.toInt_ofInt_of_le (isSigned_iff.mp h).1 (isSigned_iff.mp h).2

theorem bmod_of_isSigned (h : isSigned sum = true) : sum.bmod UInt64.size = sum := by
  rw [← toInt_ofInt_of_isSigned h, Int64.toInt_ofInt]
  exact Int.bmod_bmod

end Origin

namespace Build

variable {build : Build} {sums : List Int} {result : α}

@[simp] theorem position_checked (sum : Int) : checked.position sum = sum := rfl

/-- A sum that is a signed word is the same in every build. -/
theorem position_of_isSigned {sum : Int} (h : Origin.isSigned sum = true) :
    build.position sum = sum := by
  cases build with
  | checked => rfl
  | wrapping => exact Origin.toInt_ofInt_of_isSigned h

theorem result?_eq_none_iff : build.result? sums result = none ↔
    build = .checked ∧ ¬ ∀ sum ∈ sums, Origin.isSigned sum = true := by
  simp [result?]

theorem result?_eq_some_iff {other : α} : build.result? sums result = some other ↔
    (build = .checked → ∀ sum ∈ sums, Origin.isSigned sum = true) ∧ result = other := by
  cases build with
  | checked => simp [result?]
  | wrapping => simp [result?]

end Build

/-- A report is given in every build, unless one of its sums breaks a checked build off. -/
theorem Report.result?_eq_none_iff {build : Build} (report : Report) :
    build.result? report.sums report = none ↔
      build = .checked ∧ report.overflows = true := by
  rw [Build.result?_eq_none_iff, overflows, Bool.not_eq_true', ← Bool.not_eq_true,
    List.all_eq_true]

/-- Whether there is room in the words for so many characters from a position on, and for the
    assigned string if that is longer. -/
def Source.Room {build : Build} (source : Source build) (position : Int) (count : Nat) : Prop :=
  -(lengthLimit : Int) ≤ position ∧ max position source.chars.length + count < lengthLimit

end Provenance.Markup
