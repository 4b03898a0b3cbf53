import Provenance.Proofs.Markup.Overflow

/-! # Spans and gaps

The origins of a mapping tile the written form of the content they are of. They do so in every
build, and in one that checks its sums as long as none leaves its word.
-/

namespace Provenance.Markup

/-- Spans and gaps tile the written form, whatever was assigned and whatever the options are: the
    spans are in order and apart, under each of them stands the text that its target and action
    name, and what they leave uncovered are the contents of inline frames and the ignored nodes. The
    empty spans are among the origins, too. There is no mapping only if the build checks its sums
    and one of them leaves its word, which none does where the strings are not too long. -/
theorem map_tiles_html {fragment : Fragment} {container : NodeId} {closingTags : ClosingTags}
    (hbuilt : fragment.Built) (hproper : fragment.Proper container)
    (hsize : (fragment.innerHtml container).length < UInt64.size)
    (hremembers : closingTags.Remembers .byVoidTags) (build : Build) (assigned : Operand RecordId)
    (options : MapOptions) :
    (map? build closingTags fragment container assigned options = none ↔
      build = .checked ∧
        (mapIn build closingTags fragment container assigned options).overflows = true) ∧
    (max (-options.initialExtra.toInt) (assignedText assigned).length +
        (fragment.innerHtml container).length < lengthLimit →
      options.initialExtra.toInt + (fragment.innerHtml container).length < lengthLimit →
        map? build closingTags fragment container assigned options ≠ none) ∧
    ∀ report, map? build closingTags fragment container assigned options = some report →
      let html := fragment.innerHtml container
      let pieces := fragment.contentPieces options.ignored container
      let origins := report.origins
      origins.Pairwise (fun a b =>
        a.origin.start.toNat + a.origin.length.toNat ≤ b.origin.start.toNat) ∧
      (∀ mapped ∈ origins, fragment.Names mapped.target mapped.origin.action
        (mapped.textIn html)) ∧
      pieces.flatMap Piece.text = html ∧
      origins.map (fun mapped => (mapped.target, mapped.origin.action, mapped.textIn html)) =
        pieces.filterMap Piece.span? ∧
      (∀ text, .gap text ∈ pieces →
        (∃ id ∈ options.ignored, fragment.Below container id ∧ text = fragment.outerHtml id) ∨
          ∃ id, fragment.Below container id ∧ fragment.tag? id = some "iframe" ∧
            text = fragment.innerHtml id) ∧
      (∀ index < html.length, (∀ mapped ∈ origins, mapped.origin.covers index = false) ↔
        Piece.gapAt pieces index = true) ∧
      ∀ mapped ∈ origins, mapped.origin.capture =
        if options.capture then
          some (String.ofList (options.action.toList ++ ' ' :: mapped.textIn html))
        else none := by
  refine ⟨map?_eq_none_iff, fun hroom hextra hnone => ?_, ?_⟩
  · rw [map?_of_room hbuilt hproper hremembers hroom hextra build] at hnone
    cases hnone
  intro report hreport html pieces origins
  obtain rfl := eq_of_map?_eq_some hreport
  have hwritten : Piece.written pieces = html :=
    Fragment.written_contentPieces options.ignored hbuilt hproper
  have hexplains := Fragment.explains_contentPieces options.ignored hbuilt hproper
  have hyields := standsFor_map build hbuilt hproper hsize hremembers assigned options
  have hstands := hyields.imp fun _ _ h => h.1
  refine ⟨?_, ?_, hwritten, ?_, ?_, ?_, ?_⟩
  · exact List.pairwise_map.mp (before_map build hbuilt hproper hsize hremembers assigned options)
  · intro mapped hmem
    obtain ⟨placed, hplaced, hpiece⟩ := exists_of_mem_forall₂ hstands hmem
    rw [hpiece.target, hpiece.action, hpiece.textIn]
    exact hexplains _ (Placed.piece_of_mem hplaced)
  · rw [← Placed.map_span? 0 pieces]
    exact (map_eq_map_of_forall₂ hstands fun placed mapped hpiece => by
      rw [hpiece.target, hpiece.action, hpiece.textIn]).symm
  · exact fun text hgap => hexplains _ hgap
  · intro index hlt
    rw [← Bool.not_eq_false,
      ← covered_map build hbuilt hproper hsize hremembers assigned options hlt]
    simp only [not_exists, not_and, Bool.not_eq_true]
    exact Iff.rfl
  · intro mapped hmem
    obtain ⟨placed, -, hpiece, hyield⟩ := exists_of_mem_forall₂ hyields hmem
    rw [hyield.capture hpiece]
    simp only [Mapper.ofAssignment]
    split
    · rfl
    · rfl

/-- A paragraph, an inline frame, and a node that was not assigned. -/
def framed : Fragment :=
  (Fragment.new "div").appendElement 0 "P" [⟨"title", "a\"b"⟩]
    |>.appendText 1 "x & y"
    |>.appendElement 0 "iframe" []
    |>.appendText 3 "<b>"
    |>.appendElement 0 "ins" []

theorem framed_built : framed.Built :=
  .element (.text (.element (.text (.element (.new _) _ _ _) _ _) _ _ _) _ _) _ _ _

/-- The position before the first node leaves its word if it is counted from the least number. A
    build that wraps around lays the same spans. -/
theorem map_tiles_framed :
    let assigned : Operand RecordId := { value := .str "<p title=a>" }
    let options : MapOptions := { initialExtra := Int64.minValue, ignored := [5] }
    framed.innerHtml 0 =
      "<p title=\"a&quot;b\">x &amp; y</p><iframe><b></iframe><ins></ins>".toList ∧
    map? .checked ClosingTags.byVoidTags.folded framed 0 assigned options = none ∧
    ∃ report, map? .wrapping ClosingTags.byVoidTags.folded framed 0 assigned options =
        some report ∧
      report.origins.map
        (fun mapped => (mapped.target, mapped.origin.action, mapped.textIn (framed.innerHtml 0))) =
        [(.node 0, .replaceContents, []), (.node 1, .openingTagStart, "<p".toList),
          (.attribute 1 "title", .attributeName, " title".toList),
          (.attribute 1 "title", .attributeValue, "=\"a&quot;b\"".toList),
          (.node 1, .openingTagEnd, ">".toList), (.node 1, .replaceContents, []),
          (.node 2, .textValue, "x &amp; y".toList), (.node 1, .closingTag, "</p>".toList),
          (.node 3, .openingTagStart, "<iframe".toList), (.node 3, .openingTagEnd, ">".toList),
          (.node 3, .closingTag, "</iframe>".toList)] := by
  intro assigned options
  have hproper : framed.Proper 0 := by decide
  have hsize : (framed.innerHtml 0).length < UInt64.size := by decide +kernel
  have htiles := map_tiles_html framed_built hproper hsize (ClosingTags.folded_remembers _)
  have hover : (mapIn .checked ClosingTags.byVoidTags.folded framed 0 assigned options).overflows =
      true := by decide +kernel
  obtain ⟨hnone, -, -⟩ := htiles .checked assigned options
  obtain ⟨hnone', -, hreport⟩ := htiles .wrapping assigned options
  obtain ⟨report, hsome⟩ := Option.ne_none_iff_exists'.mp fun h => nomatch (hnone'.mp h).1
  obtain ⟨-, -, -, htokens, -⟩ := hreport report hsome
  refine ⟨by decide +kernel, hnone.mpr ⟨rfl, hover⟩, report, hsome, ?_⟩
  rw [htokens]
  decide +kernel

end Provenance.Markup
