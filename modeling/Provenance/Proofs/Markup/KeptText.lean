import Provenance.Proofs.Markup.TextReading

/-! # Text that the parser keeps

Elements of raw text, and `noscript` while scripts run, hold their text as it was assigned, but
for line ends. The text of a `noscript` element is escaped nevertheless: a reference in it is
written with the escape of its ampersand, which is then paired with that one character. Raw text
is written as it is. It has references where the assigned text has them, since a line end
neither begins nor completes one.
-/

namespace Provenance.Markup

namespace CharSource

variable {pieces : List CharSource} {piece : CharSource}

/-- Whether a character is kept as it was assigned, but for the form of a line end. -/
def Kept : CharSource → Prop
  | itself c => c ≠ '\r'
  | lineEnd => True
  | reference _ _ => False

instance : (piece : CharSource) → Decidable piece.Kept
  | itself c => inferInstanceAs (Decidable (c ≠ '\r'))
  | lineEnd => inferInstanceAs (Decidable True)
  | reference _ _ => inferInstanceAs (Decidable False)

theorem Kept.lead_eq (hkept : piece.Kept) (relative : Nat) : piece.lead relative = 0 := by
  cases piece with
  | itself c => rfl
  | lineEnd => rfl
  | reference body c => exact hkept.elim

theorem source_pos (piece : CharSource) : 0 < piece.source.length := by
  cases piece <;> exact Nat.succ_pos _

/-- Kept text begins with a reference where the assigned one does. -/
theorem referenceLength?_kept (hkept : ∀ piece ∈ pieces, piece.Kept) :
    referenceLength? (pieces.map decoded) = referenceLength? (pieces.flatMap source) := by
  obtain ⟨plain, back, rfl, hhead⟩ := exists_itself_front pieces
  have hdecoded : (plain.map itself).map decoded = plain := by
    rw [List.map_map]
    exact List.map_id plain
  rw [List.map_append, List.flatMap_append, hdecoded, flatMap_source_itself]
  cases back with
  | nil => rfl
  | cons piece more =>
      cases piece with
      | itself c => exact absurd rfl (hhead c)
      | lineEnd =>
          have hstop : ∀ c, c = '\n' ∨ c = '\r' →
              c ≠ '&' ∧ isReferenceChar c = false ∧ c ≠ ';' := by
            rintro c (rfl | rfl)
            · decide
            · decide
          have hnewline : referenceLength? (plain ++ (lineEnd :: more).map decoded) = _ :=
            referenceLength?_append fun c hnext => hstop c (.inl (Option.some.inj hnext).symm)
          have hreturn : referenceLength? (plain ++ (lineEnd :: more).flatMap source) = _ :=
            referenceLength?_append fun c hnext => hstop c (.inr (Option.some.inj hnext).symm)
          rw [hnewline, hreturn]
      | reference body c => exact (hkept _ (List.mem_append_right _ List.mem_cons_self)).elim

end CharSource

namespace Source

variable {source : Source .checked} {before rest : List Char} {piece : CharSource}
  {back : List CharSource}

/-- The escape of an ampersand is paired with the ampersand, also where a reference begins. -/
theorem stepsOver_keeping (hkept : piece.Kept)
    (hsource : source.chars = before ++ (piece.source ++ rest))
    (hend : (before.length + piece.source.length : Nat) ≤ source.contentEnd) (text : List Char) :
    source.StepsOver true escapeTextChar before piece text := by
  cases piece with
  | itself c =>
      rw [CharSource.source, List.singleton_append] at hsource
      rw [CharSource.source, List.length_singleton] at hend
      by_cases hchar : c = '&'
      · subst hchar
        refine stepsOver_written rfl (by omega) ?_
        unfold pairing
        cases referenceLength? (source.slice before.length referenceWindow) <;> rfl
      · refine stepsOver_itself escaping_text ?_ hsource (by omega) text
        rintro ⟨body, more, heq, -⟩
        exact hchar (List.cons.inj heq).1
  | lineEnd =>
      simp only [CharSource.source, List.length_cons, List.length_nil] at hend
      exact stepsOver_lineEnd rfl hsource (by omega) text
  | reference body c => exact hkept.elim

/-- A character of raw text is paired with itself. -/
theorem stepsOver_raw {escape : Char → List Char} (hescape : ∀ c, escape c = [c])
    (hkept : ∀ other ∈ piece :: back, other.Kept)
    (hsource : source.chars = before ++ (piece :: back).flatMap CharSource.source)
    (hend : (before.length + piece.source.length : Nat) ≤ source.contentEnd) :
    source.StepsOver false escape before piece (back.map CharSource.decoded) := by
  cases piece with
  | itself c =>
      rw [CharSource.source, List.length_singleton] at hend
      have hsame := CharSource.referenceLength?_kept hkept
      rw [← referenceLength?_slice hsource] at hsame
      refine stepsOver_same (hescape c) (by omega) ?_ ?_
      · exact pairing_of_same hsame.symm fun hkeeps => absurd hkeeps Bool.false_ne_true
      · rw [slice_of_append hsource]
        exact joinsLines_of_same
  | lineEnd =>
      simp only [CharSource.source, List.length_cons, List.length_nil] at hend
      exact stepsOver_lineEnd (hescape '\n') hsource (by omega) _
  | reference body c => exact (hkept _ List.mem_cons_self).elim

end Source

theorem keepsReferences_of_raw {tag : String} (hraw : isRawText tag = true) :
    keepsReferences tag = false := by
  have hothers : ∀ other ∈ rawTextTags, sameTag other "noscript" = false := by decide
  obtain ⟨other, hmem, hsame⟩ := List.any_eq_true.mp hraw
  rw [← hothers other hmem, keepsReferences, sameTag, sameTag, eq_of_beq hsame]

/-- Kept text is read as it was assigned, up to its end. -/
theorem Mapper.reads_kept_text (mapper : Mapper .checked) (id : NodeId) {parentTag content : String}
    {pieces : List CharSource}
    (htag : keepsReferences parentTag = true ∨ isRawText parentTag = true)
    (hkept : ∀ piece ∈ pieces, piece.Kept)
    (hcontent : content.toList = pieces.map CharSource.decoded) :
    mapper.Reads (mapper.text id parentTag content)
      (.join (pieces.map (CharSource.passage fun c => escapeText parentTag [c]))) [] := by
  refine mapper.reads_text_of_steps id ?_ (fun piece hmem relative _ => ?_) ?_
  · rw [escapeText_eq_flatMap, hcontent, CharSource.flatMap_decoded]
  · rw [(hkept piece hmem).lead_eq]
    exact piece.source_pos
  · rintro before hsource hend front piece back rfl
    rw [List.append_nil, List.flatMap_append, ← List.append_assoc] at hsource
    rw [List.flatMap_append, List.flatMap_cons] at hend
    simp only [List.length_append] at hend
    rcases htag with hkeeps | hraw
    · have hescape : (fun c => escapeText parentTag [c]) = escapeTextChar := by
        have hraw : ¬ isRawText parentTag = true := by
          intro hraw
          rw [keepsReferences_of_raw hraw] at hkeeps
          cases hkeeps
        funext c
        rw [escapeText, if_neg hraw, List.flatMap_singleton]
      rw [hkeeps, hescape]
      refine Source.stepsOver_keeping (hkept piece (by simp)) hsource ?_ _
      rw [List.length_append]
      omega
    · have hescape : ∀ c, escapeText parentTag [c] = [c] := fun c => if_pos hraw
      have hwritten : back.flatMap (CharSource.written fun c => escapeText parentTag [c]) =
          back.map CharSource.decoded := by
        rw [← CharSource.flatMap_decoded, ← escapeText_eq_flatMap, escapeText, if_pos hraw]
      rw [keepsReferences_of_raw hraw, hwritten]
      refine Source.stepsOver_raw hescape (fun other hmem => hkept other ?_) hsource ?_
      · exact List.mem_append_right front hmem
      · rw [List.length_append]
        omega

/-- Text that the parser keeps is mapped exactly: when it was assigned with any of its line ends as
    a carriage return and a line feed, nothing is reported, and all that is written for a
    character leads to the place where the character was assigned. -/
theorem map_kept_text {fragment : Fragment} {container child : NodeId}
    {closingTags : ClosingTags} (hbuilt : fragment.Built)
    (hremembers : closingTags.Remembers .byVoidTags)
    (hchild : fragment.children container = [child])
    (htag : keepsReferences (fragment.tag container) = true ∨
      isRawText (fragment.tag container) = true)
    {pieces : List CharSource} (hkept : ∀ piece ∈ pieces, piece.Kept)
    (hcontent : fragment.content? child =
      some (String.ofList (pieces.map CharSource.decoded)))
    {assigned : Operand RecordId}
    (hassigned : assignedText assigned = String.ofList (pieces.flatMap CharSource.source))
    (hsize : (fragment.innerHtml container).length < lengthLimit)
    (hlength : (assignedText assigned).length < lengthLimit) :
    let tag := fragment.tag container
    let report := map closingTags fragment container assigned {}
    report.diagnostics = [] ∧
    fragment.innerHtml container = escapeText tag (pieces.map CharSource.decoded) ∧
    ∀ front piece back, pieces = front ++ piece :: back →
      ∀ relative < (escapeText tag [piece.decoded]).length,
        ((Snapshot.capture fragment container report.origins).originAt
          ((escapeText tag (front.map CharSource.decoded)).length + relative)).map
            ResolvedOrigin.charIndex = some (front.flatMap CharSource.source).length := by
  intro tag report
  let mapper := Mapper.ofAssignment .checked closingTags fragment container assigned {}
  let escape := fun c => escapeText tag [c]
  have hsource := CharSource.source_join escape pieces
  have htext := mapper.reads_kept_text child htag hkept String.toList_ofList
  rw [hassigned, String.length_ofList, ← hsource] at hlength
  rw [← hsource] at hassigned
  obtain ⟨hclean, hleads⟩ :=
    map_of_reads hbuilt (Fragment.proper_of_text hchild hcontent) hsize hremembers
    hassigned hlength (Mapper.reads_content_of_text List.not_mem_nil hchild hcontent htext)
  refine ⟨hclean, ?_, ?_⟩
  · rw [Fragment.innerHtml_of_text hchild hcontent, String.toList_ofList]
  · rintro front piece back rfl relative hlt
    have hlead := @CharSource.leads_join escape piece front back relative hlt
    rw [(hkept piece (by simp)).lead_eq, Nat.add_zero, ← CharSource.flatMap_decoded,
      ← escapeText_eq_flatMap] at hlead
    exact hleads _ _ hlead

/-- What looks like an escaped angle bracket, a line end and an angle bracket. -/
def keptPieces : List CharSource :=
  [.itself '&', .itself 'l', .itself 't', .itself ';', .lineEnd, .itself '<']

/-- The ampersand of the reference is written with five characters, and all lead back to it. -/
theorem map_kept_text_noscript :
    let fragment := (Fragment.new "noscript").appendText 0 "&lt;\n<"
    let report := map ClosingTags.byVoidTags.folded fragment 0 { value := .str "&lt;\r\n<" } {}
    report.diagnostics = [] ∧
    fragment.innerHtml 0 = "&amp;lt;\n&lt;".toList ∧
    ((Snapshot.capture fragment 0 report.origins).originAt 4).map ResolvedOrigin.charIndex =
      some 0 ∧
    ((Snapshot.capture fragment 0 report.origins).originAt 5).map ResolvedOrigin.charIndex =
      some 1 ∧
    ((Snapshot.capture fragment 0 report.origins).originAt 9).map ResolvedOrigin.charIndex =
      some 6 := by
  intro fragment report
  have hbuilt : fragment.Built := .text (.new _) _ _
  obtain ⟨hclean, hwritten, hleads⟩ := @map_kept_text fragment 0 1 _ hbuilt
    (ClosingTags.folded_remembers _) (by decide) (.inl (by decide)) keptPieces (by decide)
    (by decide) { value := .str "&lt;\r\n<" } (by decide) (by decide) (by decide +kernel)
  have hescape : ∀ text, escapeText (fragment.tag 0) text = text.flatMap escapeTextChar :=
    escapeText_of_not_raw (by decide)
  simp only [hescape] at hwritten hleads
  refine ⟨hclean, hwritten.trans (by decide), ?_, ?_, ?_⟩
  · exact hleads [] _ _ rfl 4 (by decide)
  · exact hleads [.itself '&'] _ _ rfl 0 (by decide)
  · exact hleads (keptPieces.take 5) (.itself '<') [] rfl 0 (by decide)

end Provenance.Markup
