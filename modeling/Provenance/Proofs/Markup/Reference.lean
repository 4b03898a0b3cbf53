import Provenance.Markup.Escape
import Provenance.Markup.Reference

/-! # References in escaped text

Escaping writes a character as it is or as a reference, and never leaves an ampersand of its
own. So every ampersand of an escaped text begins a reference that is there in full, whatever
follows the text. In other text a reference may be cut off by the end, but what follows does
not complete it if it begins with a character that no reference has.
-/

namespace Provenance.Markup

variable {text tail rest body : List Char}

theorem referenceLength?_take (text : List Char) :
    referenceLength? (text.take referenceWindow) = referenceLength? text := by
  rw [referenceLength?, referenceLength?, List.take_take, Nat.min_self]

theorem referenceLength?_of_head {c : Char} (hchar : c ≠ '&') :
    referenceLength? (c :: tail) = none := by
  unfold referenceLength?
  split
  · rename_i heq
    rw [referenceWindow, List.take_succ_cons] at heq
    exact absurd (List.cons.inj heq).1 hchar
  · rfl

theorem referenceLength?_amp :
    referenceLength? ('&' :: tail) =
      let body := ((tail.take 29).takeWhile isReferenceChar).length
      if 0 < body ∧ (tail.take 29)[body]? = some ';' then some (body + 2) else none := rfl

/-- A whole reference is recognized, whatever follows it. -/
theorem referenceLength?_of_whole (hne : body ≠ []) (hbody : ∀ c ∈ body, isReferenceChar c = true)
    (hlength : body.length + 2 ≤ referenceWindow) :
    referenceLength? ('&' :: (body ++ ';' :: rest)) = some (body.length + 2) := by
  rw [referenceWindow] at hlength
  obtain ⟨more, hmore⟩ : ∃ more, 29 - body.length = more + 1 := ⟨28 - body.length, by omega⟩
  have hwindow : (body ++ ';' :: rest).take 29 = body ++ ';' :: rest.take more := by
    rw [List.take_append, List.take_of_length_le (by omega), hmore, List.take_succ_cons]
  have hspan : ((body ++ ';' :: rest).take 29).takeWhile isReferenceChar = body := by
    rw [hwindow, List.takeWhile_append_of_pos hbody, List.takeWhile_cons_of_neg (by decide),
      List.append_nil]
  have hsemicolon : ((body ++ ';' :: rest).take 29)[body.length]? = some ';' := by
    rw [hwindow, List.getElem?_append_right (Nat.le_refl _), Nat.sub_self]
    rfl
  simp only [referenceLength?_amp, hspan]
  rw [if_pos ⟨List.length_pos_iff.mpr hne, hsemicolon⟩]

theorem takeWhile_append_of_head {p : Char → Bool}
    (hhead : ∀ c, rest.head? = some c → p c = false) :
    (text ++ rest).takeWhile p = text.takeWhile p := by
  induction text with
  | nil =>
      cases rest with
      | nil => rfl
      | cons c rest => simp [hhead c rfl]
  | cons c text ih => simp only [List.cons_append, List.takeWhile_cons, ih]

/-- What follows a text does not complete a reference that the end of the text cuts off. -/
theorem referenceLength?_append
    (hnext : ∀ c, rest.head? = some c → c ≠ '&' ∧ isReferenceChar c = false ∧ c ≠ ';') :
    referenceLength? (text ++ rest) = referenceLength? text := by
  cases text with
  | nil =>
      cases rest with
      | nil => rfl
      | cons c rest => exact referenceLength?_of_head (hnext c rfl).1
  | cons c tail =>
      by_cases hchar : c = '&'
      · subst hchar
        have hhead : ∀ c, (rest.take (29 - tail.length)).head? = some c →
            rest.head? = some c := by
          intro c hhead'
          rw [List.head?_take] at hhead'
          split at hhead'
          · cases hhead'
          · exact hhead'
        have hspan : ((tail ++ rest).take 29).takeWhile isReferenceChar =
            (tail.take 29).takeWhile isReferenceChar := by
          rw [List.take_append]
          exact takeWhile_append_of_head fun c hhead' => (hnext c (hhead c hhead')).2.1
        have hend : ∀ n : Nat, n ≤ (tail.take 29).length →
            (((tail ++ rest).take 29)[n]? = some ';' ↔ (tail.take 29)[n]? = some ';') := by
          intro n hn
          rw [List.take_append]
          rcases Nat.lt_or_eq_of_le hn with hlt | rfl
          · rw [List.getElem?_append_left hlt]
          · rw [List.getElem?_append_right (Nat.le_refl _), Nat.sub_self, ← List.head?_eq_getElem?,
              List.getElem?_eq_none (Nat.le_refl _)]
            exact ⟨fun hhead' => absurd rfl (hnext _ (hhead _ hhead')).2.2, fun hchar =>
              nomatch hchar⟩
        have hlength := (List.takeWhile_sublist isReferenceChar (l := tail.take 29)).length_le
        rw [List.cons_append]
        simp only [referenceLength?_amp, hspan, hend _ hlength]
      · rw [List.cons_append, referenceLength?_of_head hchar, referenceLength?_of_head hchar]

/-- A way to write characters: each one as it is, or as a reference. -/
def Escaping (escape : Char → List Char) : Prop :=
  ∀ c, (escape c = [c] ∧ c ≠ '&') ∨
    ∃ body, escape c = '&' :: (body ++ [';']) ∧ body ≠ [] ∧
      body.all isReferenceChar = true ∧ body.length + 2 ≤ referenceWindow

theorem escaping_text : Escaping escapeTextChar := by
  intro c
  unfold escapeTextChar
  split
  · exact .inr ⟨"amp".toList, rfl, by decide, by decide, by decide⟩
  · rename_i hchar
    split
    · exact .inr ⟨"nbsp".toList, rfl, by decide, by decide, by decide⟩
    · split
      · exact .inr ⟨"lt".toList, rfl, by decide, by decide, by decide⟩
      · split
        · exact .inr ⟨"gt".toList, rfl, by decide, by decide, by decide⟩
        · exact .inl ⟨rfl, hchar⟩

theorem escaping_attribute : Escaping escapeAttributeChar := by
  intro c
  unfold escapeAttributeChar
  split
  · exact .inr ⟨"amp".toList, rfl, by decide, by decide, by decide⟩
  · rename_i hchar
    split
    · exact .inr ⟨"nbsp".toList, rfl, by decide, by decide, by decide⟩
    · split
      · exact .inr ⟨"quot".toList, rfl, by decide, by decide, by decide⟩
      · exact .inl ⟨rfl, hchar⟩

theorem escapeText_eq_flatMap (tag : String) (text : List Char) :
    escapeText tag text = text.flatMap fun c => escapeText tag [c] := by
  unfold escapeText
  split
  · exact (List.flatMap_singleton' text).symm
  · simp only [List.flatMap_singleton]

theorem escapeText_of_not_raw {tag : String} (hraw : isRawText tag = false) (content : List Char) :
    escapeText tag content = content.flatMap escapeTextChar := by
  rw [escapeText, hraw]
  rfl

variable {escape : Char → List Char}

theorem Escaping.ne_nil (hescaping : Escaping escape) (c : Char) : escape c ≠ [] := by
  rcases hescaping c with ⟨hplain, -⟩ | ⟨body, hbody, -⟩
  · rw [hplain]
    exact List.cons_ne_nil _ _
  · rw [hbody]
    exact List.cons_ne_nil _ _

theorem suffix_of_not_mem {c : Char} {front back : List Char} (hchar : c ∉ front)
    (hsuffix : c :: tail <:+ front ++ back) : c :: tail <:+ back := by
  induction front with
  | nil => exact hsuffix
  | cons d front ih =>
      rcases List.suffix_cons_iff.mp hsuffix with heq | hsuffix
      · exact absurd (List.mem_cons.mpr (.inl (List.cons.inj heq).1)) hchar
      · exact ih (fun hmem => hchar (List.mem_cons_of_mem d hmem)) hsuffix

/-- Every ampersand of an escaped text begins what was written for a character. -/
theorem exists_escape_of_suffix (hescaping : Escaping escape)
    (hsuffix : '&' :: tail <:+ text.flatMap escape) :
    ∃ c ∈ text, ∃ more, '&' :: tail = escape c ++ more := by
  induction text with
  | nil => simp at hsuffix
  | cons c text ih =>
      rw [List.flatMap_cons] at hsuffix
      have hrest : '&' :: tail <:+ text.flatMap escape →
          ∃ d ∈ c :: text, ∃ more, '&' :: tail = escape d ++ more := by
        intro hsuffix
        obtain ⟨d, hother, more, heq⟩ := ih hsuffix
        exact ⟨d, List.mem_cons_of_mem c hother, more, heq⟩
      rcases hescaping c with ⟨hplain, hchar⟩ | ⟨body, hbody, -, hall, -⟩
      · rw [hplain] at hsuffix
        refine hrest (suffix_of_not_mem ?_ hsuffix)
        simpa using hchar.symm
      · rw [hbody, List.cons_append, List.suffix_cons_iff] at hsuffix
        rcases hsuffix with heq | hsuffix
        · exact ⟨c, List.mem_cons_self, _, by rw [hbody, List.cons_append, heq]⟩
        · refine hrest (suffix_of_not_mem ?_ hsuffix)
          intro hmem
          rcases List.mem_append.mp hmem with hmem | hmem
          · exact absurd (List.all_eq_true.mp hall _ hmem) (by decide)
          · exact absurd (List.mem_singleton.mp hmem) (by decide)

/-- The references of an escaped text do not depend on what follows it. -/
theorem referenceLength?_of_escaped (hescaping : Escaping escape) {suffix : List Char}
    (hsuffix : suffix <:+ text.flatMap escape) (hne : suffix ≠ []) :
    referenceLength? (suffix ++ rest) = referenceLength? suffix := by
  cases suffix with
  | nil => exact absurd rfl hne
  | cons c tail =>
      by_cases hother : c = '&'
      · subst hother
        obtain ⟨d, -, more, heq⟩ := exists_escape_of_suffix hescaping hsuffix
        rcases hescaping d with ⟨hplain, hchar⟩ | ⟨body, hbody, hne, hall, hlength⟩
        · rw [hplain] at heq
          exact absurd (List.cons.inj heq).1.symm hchar
        · rw [heq, hbody]
          simp only [List.cons_append, List.append_assoc, List.nil_append]
          have hchars := List.all_eq_true.mp hall
          rw [referenceLength?_of_whole hne hchars hlength,
            referenceLength?_of_whole hne hchars hlength]
      · rw [List.cons_append, referenceLength?_of_head hother, referenceLength?_of_head hother]

end Provenance.Markup
