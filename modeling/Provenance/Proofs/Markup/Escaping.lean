import Mathlib.Data.List.Basic
import Provenance.Proofs.Markup.Reference

/-! # What escaping keeps apart

Escaped text has none of the characters that would be read as markup. Two texts are never written
alike, since what is written for a character can be told from what comes behind it. And the
references of an escaped text are those that escaping has put there: each is recognized in its
full length at the ampersand that it begins with, and nothing is recognized anywhere else,
however many ampersands and semicolons the text itself has.
-/

namespace Provenance.Markup

variable {escape : Char → List Char} {text rest : List Char} {index length : Nat}

namespace Escaping

theorem referenceLength?_append (hescaping : Escaping escape) (c : Char) (rest : List Char) :
    referenceLength? (escape c ++ rest) =
      if escape c = [c] then none else some (escape c).length := by
  obtain ⟨hplain, hdifferent⟩ | ⟨body, hwritten, hnonempty, hallowed, hshort⟩ := hescaping c
  · rw [if_pos hplain, hplain]
    exact referenceLength?_of_head hdifferent
  · have hescaped : escape c ≠ [c] := by
      intro hplain
      have hlengths := congrArg List.length (hwritten.symm.trans hplain)
      simp at hlengths
    have hwhole : referenceLength? ('&' :: (body ++ ';' :: rest)) = some (body.length + 2) :=
      referenceLength?_of_whole hnonempty (List.all_eq_true.mp hallowed) hshort
    rw [if_neg hescaped, hwritten]
    simpa using hwhole

/-- What comes behind the first character of what is written for a character is no ampersand. -/
theorem referenceLength?_inside (hescaping : Escaping escape) (c : Char) (rest : List Char)
    (hpositive : 0 < index) (hinside : index < (escape c).length) :
    referenceLength? ((escape c ++ rest).drop index) = none := by
  obtain ⟨hplain, -⟩ | ⟨body, hwritten, -, hallowed, -⟩ := hescaping c
  · rw [hplain, List.length_singleton] at hinside
    omega
  · obtain ⟨k, rfl⟩ := Nat.exists_eq_succ_of_ne_zero (Nat.pos_iff_ne_zero.mp hpositive)
    rw [hwritten] at hinside ⊢
    have hthere : k < (body ++ [';']).length := Nat.lt_of_succ_lt_succ hinside
    have hhere : (body ++ [';'])[k] ≠ '&' := by
      obtain hmem | hlast := List.mem_append.mp (List.getElem_mem hthere)
      · intro hsame
        exact absurd (hsame ▸ List.all_eq_true.mp hallowed _ hmem) (by decide)
      · rw [List.mem_singleton.mp hlast]
        decide
    rw [List.cons_append, List.drop_succ_cons, List.drop_append_of_le_length (Nat.le_of_lt hthere),
      List.drop_eq_getElem_cons hthere, List.cons_append]
    exact referenceLength?_of_head hhere

/-- What is written for a character ends where it does, whatever follows. -/
theorem cancel (hescaping : Escaping escape) {c d : Char} {rest others : List Char}
    (hsame : escape c ++ rest = escape d ++ others) : escape c = escape d ∧ rest = others := by
  have hlength_eq (c : Char) (rest : List Char) :
      (escape c).length = (referenceLength? (escape c ++ rest)).getD 1 := by
    rw [hescaping.referenceLength?_append]
    split
    · rename_i hplain
      rw [hplain]
      rfl
    · rfl
  refine List.append_inj hsame ?_
  rw [hlength_eq c rest, hsame, ← hlength_eq d others]

/-- If no two characters are written alike, no two texts are. -/
theorem flatMap_injective (hescaping : Escaping escape) (hapart : Function.Injective escape) :
    Function.Injective fun text : List Char => text.flatMap escape := by
  intro text others hsame
  induction text generalizing others with
  | nil =>
      cases others with
      | nil => rfl
      | cons d others =>
          have hnothing := (List.append_eq_nil_iff.mp (Eq.symm hsame)).1
          exact absurd hnothing (hescaping.ne_nil d)
  | cons c text ih =>
      cases others with
      | nil =>
          have hnothing := (List.append_eq_nil_iff.mp hsame).1
          exact absurd hnothing (hescaping.ne_nil c)
      | cons d others =>
          obtain ⟨hfirst, hbehind⟩ := hescaping.cancel hsame
          rw [hapart hfirst, ih hbehind]

end Escaping

/-- Whether an index is where the reference begins that is written for an escaped character of a
    text, and how long that reference is. -/
def EscapedAt (escape : Char → List Char) (text : List Char) (index length : Nat) : Prop :=
  ∃ front c back, text = front ++ c :: back ∧ escape c ≠ [c] ∧
    index = (front.flatMap escape).length ∧ length = (escape c).length

theorem escapedAt_cons_iff {c : Char} :
    EscapedAt escape (c :: text) index length ↔
      (index = 0 ∧ escape c ≠ [c] ∧ length = (escape c).length) ∨
        (escape c).length ≤ index ∧ EscapedAt escape text (index - (escape c).length) length := by
  constructor
  · rintro ⟨front, d, back, hsplit, hescaped, rfl, rfl⟩
    cases front with
    | nil =>
        obtain ⟨rfl, -⟩ := List.cons.inj hsplit
        exact .inl ⟨rfl, hescaped, rfl⟩
    | cons e front =>
        obtain ⟨rfl, rfl⟩ := List.cons.inj hsplit
        rw [List.flatMap_cons, List.length_append]
        refine .inr ⟨Nat.le_add_right _ _, front, d, back, rfl, hescaped, ?_, rfl⟩
        exact Nat.add_sub_cancel_left _ _
  · rintro (⟨rfl, hescaped, rfl⟩ | ⟨hbehind, front, d, back, rfl, hescaped, hplace, rfl⟩)
    · exact ⟨[], c, text, rfl, hescaped, rfl, rfl⟩
    · refine ⟨c :: front, d, back, rfl, hescaped, ?_, rfl⟩
      rw [List.flatMap_cons, List.length_append]
      omega

/-- References are recognized where escaping has put them, and nowhere else. -/
theorem Escaping.referenceLength?_drop_iff (hescaping : Escaping escape) :
    referenceLength? ((text.flatMap escape).drop index) = some length ↔
      EscapedAt escape text index length := by
  induction text generalizing index with
  | nil => simp [EscapedAt, referenceLength?]
  | cons c text ih =>
      have hpositive := List.length_pos_iff.mpr (hescaping.ne_nil c)
      rw [escapedAt_cons_iff, List.flatMap_cons]
      by_cases hbehind : (escape c).length ≤ index
      · have hlater : index ≠ 0 := by omega
        rw [List.drop_append, List.drop_of_length_le hbehind, List.nil_append, ih]
        simp [hbehind, hlater]
      · by_cases hfirst : index = 0
        · subst hfirst
          rw [List.drop_zero, hescaping.referenceLength?_append]
          split
          · rename_i hplain
            simp [hplain]
          · rename_i hescaped
            simp [hescaped, hescaping.ne_nil c, eq_comm]
        · rw [hescaping.referenceLength?_inside c _ (Nat.pos_of_ne_zero hfirst)
            (Nat.lt_of_not_le hbehind)]
          simp [hbehind, hfirst]

/-! ## Texts and attribute values -/

theorem escapeTextChar_injective : Function.Injective escapeTextChar := by
  intro c d hsame
  grind [escapeTextChar]

theorem escapeAttributeChar_injective : Function.Injective escapeAttributeChar := by
  intro c d hsame
  grind [escapeAttributeChar]

/-- How texts are written: some characters never occur, no two texts are written alike, and a
    reference is recognized exactly where a character was escaped. -/
structure KeepsApart (write : List Char → List Char) (escape : Char → List Char)
    (marks : List Char) : Prop where
  absent : ∀ text, ∀ mark ∈ marks, mark ∉ write text
  injective : Function.Injective write
  recognized : ∀ text index length,
    referenceLength? ((write text).drop index) = some length ↔ EscapedAt escape text index length

theorem Escaping.keepsApart (hescaping : Escaping escape) (hapart : Function.Injective escape)
    {marks : List Char} (habsent : ∀ mark ∈ marks, ∀ c, mark ∉ escape c) :
    KeepsApart (fun text => text.flatMap escape) escape marks where
  absent text mark hlisted hwritten := by
    obtain ⟨c, -, hmem⟩ := List.mem_flatMap.mp hwritten
    exact habsent mark hlisted c hmem
  injective := hescaping.flatMap_injective hapart
  recognized _ _ _ := hescaping.referenceLength?_drop_iff

/-- Text that is escaped, and every attribute value, is written without the characters that would
    end it and without no-break spaces. It can be told from all other texts, and so can what was
    escaped in it. -/
theorem escaping_keeps_apart {tag : String} (hescaped : isRawText tag = false) :
    KeepsApart (escapeText tag) escapeTextChar ['<', '>', '\u00a0'] ∧
      KeepsApart escapeAttribute escapeAttributeChar ['"', '\u00a0'] := by
  constructor
  · have hwritten : escapeText tag = fun text => text.flatMap escapeTextChar :=
      funext (escapeText_of_not_raw hescaped)
    rw [hwritten]
    refine escaping_text.keepsApart escapeTextChar_injective ?_
    intro mark hlisted c hmem
    grind [escapeTextChar]
  · refine escaping_attribute.keepsApart escapeAttributeChar_injective ?_
    intro mark hlisted c hmem
    grind [escapeAttributeChar]

/-- A text that looks escaped already: its ampersand is escaped once more, and the semicolon that
    the text had after it ends nothing. -/
theorem escaping_keeps_apart_twice :
    let text := "&amp;<".toList
    isRawText "p" = false ∧ escapeText "p" text = "&amp;amp;&lt;".toList ∧
      escapeText "p" text ≠ escapeText "p" "&<".toList ∧ '<' ∉ escapeText "p" text ∧
      referenceLength? ((escapeText "p" text).drop 0) = some 5 ∧
      referenceLength? ((escapeText "p" text).drop 9) = some 4 ∧
      EscapedAt escapeTextChar text 9 4 := by
  intro text
  have hplain : isRawText "p" = false := by decide
  obtain ⟨htexts, -⟩ := escaping_keeps_apart hplain
  have hlast : EscapedAt escapeTextChar text 9 4 :=
    ⟨"&amp;".toList, '<', [], by decide, by decide, by decide, by decide⟩
  refine ⟨hplain, by decide, fun hsame => ?_, htexts.absent text '<' (by decide), ?_, ?_, hlast⟩
  · exact absurd (htexts.injective hsame) (by decide)
  · exact (htexts.recognized text 0 5).mpr
      ⟨[], '&', "amp;<".toList, by decide, by decide, rfl, by decide⟩
  · exact (htexts.recognized text 9 4).mpr hlast

end Provenance.Markup
