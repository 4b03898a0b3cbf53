import Mathlib.Data.List.TakeWhile
import Provenance.Text.Blank

/-! # Counting blanks

Blanks are counted in a window of the text. If they all fit into it, their number and what comes
behind them do not depend on its length.
-/

namespace Provenance.Text

variable {blanks rest : List Char} {count : Nat}

/-- Blanks are counted up to the first other character. -/
theorem leadingBlanks_take (hblanks : ∀ c ∈ blanks, isBlank c = true)
    (hhead : ∀ c, rest.head? = some c → isBlank c = false) (hle : blanks.length ≤ count) :
    leadingBlanks ((blanks ++ rest).take count) = blanks.length := by
  have hnone : ∀ more, (rest.take more).takeWhile isBlank = [] := by
    intro more
    cases rest with
    | nil => rw [List.take_nil, List.takeWhile_nil]
    | cons c rest =>
        cases more with
        | zero => rfl
        | succ more => rw [List.take_succ_cons, List.takeWhile_cons_of_neg (by simp [hhead c rfl])]
  rw [leadingBlanks, List.take_append, List.take_of_length_le hle,
    List.takeWhile_append_of_pos hblanks, hnone, List.append_nil]

theorem getElem?_take_blanks (hlt : blanks.length < count) :
    ((blanks ++ rest).take count)[blanks.length]? = rest.head? := by
  rw [List.getElem?_take_of_lt hlt, List.getElem?_append_right (Nat.le_refl _), Nat.sub_self,
    List.head?_eq_getElem?]

/-- What follows the blanks is found, or nothing if there are more than are looked at. -/
theorem getElem?_leadingBlanks (text : List Char) (count : Nat) :
    (text.take count)[leadingBlanks (text.take count)]? = none ∨
      (text.take count)[leadingBlanks (text.take count)]? = (text.dropWhile isBlank).head? := by
  have hblanks : ∀ c ∈ text.takeWhile isBlank, isBlank c = true :=
    List.all_eq_true.mp List.all_takeWhile
  have hrest : ∀ c, (text.dropWhile isBlank).head? = some c → isBlank c = false := by
    intro c hhead
    have hnot := List.head?_dropWhile_not isBlank text
    rw [hhead] at hnot
    exact hnot
  have hsplit : text = text.takeWhile isBlank ++ text.dropWhile isBlank :=
    List.takeWhile_append_dropWhile.symm
  by_cases hlt : (text.takeWhile isBlank).length < count
  · refine .inr ?_
    have hcount := leadingBlanks_take hblanks hrest (Nat.le_of_lt hlt)
    rw [← hsplit] at hcount
    rw [hcount]
    have hget : ((text.takeWhile isBlank ++ text.dropWhile isBlank).take count)[
        (text.takeWhile isBlank).length]? = _ := getElem?_take_blanks hlt
    rwa [← hsplit] at hget
  · refine .inl (List.getElem?_eq_none ?_)
    have hall : ∀ c ∈ text.take count, isBlank c = true := by
      intro c hchar
      rw [hsplit, List.take_append_of_le_length (Nat.le_of_not_lt hlt)] at hchar
      exact hblanks c (List.mem_of_mem_take hchar)
    rw [leadingBlanks, List.takeWhile_eq_self_iff.mpr hall]

end Provenance.Text
