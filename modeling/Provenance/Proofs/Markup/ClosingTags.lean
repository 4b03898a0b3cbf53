import Provenance.Markup.ClosingTags

/-! # The memory of closing tags

A memory only ever holds what its probe answered for tags in lower case. So it answers like
the probe itself, whatever it was asked before, and the answers by the list of void elements
do not change.
-/

namespace Provenance.Markup

theorem toLower_toLower (c : Char) : c.toLower.toLower = c.toLower := by
  have hout : ¬ (c.toLower.val ≥ 'A'.val ∧ c.toLower.val ≤ 'Z'.val) := by
    unfold Char.toLower
    split
    · rename_i hchar
      simp [UInt32.le_iff_toNat_le] at hchar ⊢
      omega
    · rename_i hchar
      exact hchar
  exact dif_neg hout

theorem sameTag_lowerAscii (a tag : String) : sameTag a (lowerAscii tag) = sameTag a tag := by
  simp only [sameTag, lowerAscii, String.toList_ofList, List.map_map]
  congr 2
  funext c
  exact toLower_toLower c

theorem isVoid_lowerAscii (tag : String) : isVoid (lowerAscii tag) = isVoid tag := by
  simp only [isVoid, sameTag_lowerAscii]

namespace ClosingTagMemory

variable {probe : ClosingTags} {memory : ClosingTagMemory}

/-- A memory that was filled by asking for tags. -/
inductive Filled (probe : ClosingTags) : ClosingTagMemory → Prop
  | empty : Filled probe {}
  | ask {memory : ClosingTagMemory} (hfilled : Filled probe memory) (tag : String) :
      Filled probe (memory.ask probe tag).2

theorem Filled.answer_of_lookup (hfilled : Filled probe memory) :
    ∀ {key : String} {answer : Bool}, memory.known.lookup key = some answer →
      answer = probe key := by
  induction hfilled with
  | empty => intro key answer hk; cases hk
  | @ask memory _ tag ih =>
      intro key answer hk
      simp only [ClosingTagMemory.ask] at hk
      split at hk
      · exact ih hk
      · by_cases hkey : key = lowerAscii tag
        · subst hkey
          simpa [eq_comm] using hk
        · rw [List.lookup_cons, beq_false_of_ne hkey] at hk
          exact ih hk

theorem Filled.ask_eq (hfilled : Filled probe memory) (tag : String) :
    (memory.ask probe tag).1 = probe.folded tag := by
  simp only [ClosingTagMemory.ask]
  split
  · rename_i answer hk
    exact hfilled.answer_of_lookup hk
  · rfl

end ClosingTagMemory

/-- Every answer comes from some memory of a probe, whatever that was asked before. -/
def ClosingTags.Remembers (closingTags probe : ClosingTags) : Prop :=
  ∀ tag, ∃ memory : ClosingTagMemory, memory.Filled probe ∧
    closingTags tag = (memory.ask probe tag).1

theorem ClosingTags.Remembers.eq_folded {closingTags probe : ClosingTags}
    (hremembers : closingTags.Remembers probe) (tag : String) :
    closingTags tag = probe.folded tag := by
  obtain ⟨memory, hfilled, heq⟩ := hremembers tag
  rw [heq, hfilled.ask_eq]

theorem ClosingTags.Remembers.eq_not_isVoid {closingTags : ClosingTags}
    (hremembers : closingTags.Remembers .byVoidTags) (tag : String) :
    closingTags tag = !isVoid tag := by
  rw [hremembers.eq_folded, folded, byVoidTags, isVoid_lowerAscii]

theorem ClosingTags.folded_remembers (probe : ClosingTags) : probe.folded.Remembers probe :=
  fun tag => ⟨{}, .empty, (ClosingTagMemory.Filled.empty.ask_eq tag).symm⟩

end Provenance.Markup
