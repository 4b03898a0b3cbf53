import Provenance.Text.Lowercase

/-! # Lower case of the characters of markup

Small letters are letters: no character has an angle bracket, a slash, a digit or a hyphen as
its small letter, other than these themselves. So a text in lower case shows where the text
itself has them.
-/

namespace Provenance.Text

/-- Whether a character of ASCII is not a capital. -/
def isUncapped (c : Char) : Bool := c.toNat < 0x41 || (0x5A < c.toNat && c.toNat < 0x80)

theorem caseRuns_first : ∀ run ∈ caseRuns,
    (run.first = 0x41 ∧ run.last = 0x5A) ∨ 0x80 ≤ run.first := by
  decide +kernel

theorem caseRuns_shift : ∀ run ∈ caseRuns, 97 ≤ (run.first : Int) + run.shift := by
  decide +kernel

theorem smallLetter_of_uncapped {c : Char} (huncapped : isUncapped c = true) :
    smallLetter c = c := by
  have hnone : caseRuns.find? (·.contains c.toNat) = none := by
    refine List.find?_eq_none.mpr fun run hrun => ?_
    simp only [isUncapped, Bool.or_eq_true, Bool.and_eq_true, decide_eq_true_eq] at huncapped
    simp only [CaseRun.contains, Bool.and_eq_true, decide_eq_true_eq, not_and]
    intro hfirst hlast
    rcases caseRuns_first run hrun with ⟨hbegin, hlast'⟩ | hbegin
    · omega
    · omega
  simp only [smallLetter, hnone]

/-- A character that has a small letter of its own has a letter for it. -/
theorem smallLetter_cases (c : Char) :
    smallLetter c = c ∨ (smallLetter c).toNat = 0 ∨ 97 ≤ (smallLetter c).toNat := by
  unfold smallLetter
  split
  · rename_i run hfind
    have hrun := List.mem_of_find?_eq_some hfind
    have hcontains := List.find?_some hfind
    simp only [CaseRun.contains, Bool.and_eq_true, decide_eq_true_eq] at hcontains
    have hshift := caseRuns_shift run hrun
    refine .inr ?_
    by_cases hvalid : ((c.toNat : Int) + run.shift).toNat.isValidChar
    · refine .inr ?_
      rw [Char.ofNat, dif_pos hvalid]
      change 97 ≤ ((c.toNat : Int) + run.shift).toNat
      omega
    · refine .inl ?_
      rw [Char.ofNat, dif_neg hvalid]
      rfl
  · exact .inl rfl

/-- What holds of each of the characters of ASCII, as they are counted. -/
theorem of_ascii {P : Char → Prop} (hall : ∀ n < 0x80, P (Char.ofNat n)) {c : Char}
    (hascii : c.toNat < 0x80) : P c := by
  have h := hall c.toNat hascii
  rwa [Char.ofNat_toNat] at h

theorem smallLetter_of_ascii {c : Char} (hascii : c.toNat < 0x80) : smallLetter c = c.toLower :=
  @of_ascii (fun c => smallLetter c = c.toLower) (by decide +kernel) c hascii

theorem lowercaseAfter_cons_of_ascii {c : Char} (hascii : c.toNat < 0x80)
    (before rest : List Char) :
    lowercaseAfter before (c :: rest) = c.toLower :: lowercaseAfter (c :: before) rest := by
  have hsigma : c ≠ 'Σ' := by rintro rfl; exact absurd hascii (by decide)
  have hdotted : c ≠ 'İ' := by rintro rfl; exact absurd hascii (by decide)
  simp only [lowercaseAfter, hsigma, hdotted, if_false, smallLetter_of_ascii hascii,
    List.cons_append, List.nil_append]

/-- A text of ASCII is put in lower case letter by letter. -/
theorem lowercaseAfter_of_ascii {text : List Char} (hascii : ∀ c ∈ text, c.toNat < 0x80)
    (before : List Char) : lowercaseAfter before text = text.map Char.toLower := by
  induction text generalizing before with
  | nil => rfl
  | cons c text ih =>
      rw [lowercaseAfter_cons_of_ascii (hascii c List.mem_cons_self), List.map_cons,
        ih fun d hchar => hascii d (List.mem_cons_of_mem c hchar)]

theorem lowercaseAfter_cons_of_uncapped {c : Char} (huncapped : isUncapped c = true)
    (before rest : List Char) :
    lowercaseAfter before (c :: rest) = c :: lowercaseAfter (c :: before) rest := by
  have hsigma : c ≠ 'Σ' := by rintro rfl; exact absurd huncapped (by decide)
  have hdotted : c ≠ 'İ' := by rintro rfl; exact absurd huncapped (by decide)
  simp only [lowercaseAfter, hsigma, hdotted, if_false, smallLetter_of_uncapped huncapped,
    List.cons_append, List.nil_append]

/-- Where a sign comes out, it went in. -/
theorem eq_of_lowercaseAfter_cons {before text out : List Char} {d : Char}
    (hpos : 0 < d.toNat) (hlt : d.toNat < 97) (h : lowercaseAfter before text = d :: out) :
    ∃ rest, text = d :: rest ∧ lowercaseAfter (d :: before) rest = out := by
  cases text with
  | nil => cases h
  | cons c rest =>
      simp only [lowercaseAfter] at h
      split at h
      · have heq := (List.cons.inj h).1
        split at heq
        · rw [← heq] at hlt
          exact absurd hlt (by decide)
        · rw [← heq] at hlt
          exact absurd hlt (by decide)
      · split at h
        · rw [← (List.cons.inj h).1] at hlt
          exact absurd hlt (by decide)
        · obtain ⟨heq, hout⟩ := List.cons.inj h
          rcases smallLetter_cases c with hsame | hzero | hletter
          · rw [hsame] at heq
            subst heq
            exact ⟨rest, rfl, hout⟩
          · rw [heq] at hzero
            omega
          · rw [heq] at hletter
            omega

theorem length_lowercaseAfter_le (before text : List Char) :
    (lowercaseAfter before text).length ≤ 2 * text.length := by
  induction text generalizing before with
  | nil => exact Nat.le_refl 0
  | cons c rest ih =>
      have hrest := ih (c :: before)
      rw [lowercaseAfter, List.length_append, List.length_cons]
      split
      · rw [List.length_singleton]
        omega
      · split
        · rw [List.length_cons, List.length_singleton]
          omega
        · rw [List.length_singleton]
          omega

end Provenance.Text
