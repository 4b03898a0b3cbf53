import Provenance.Proofs.Markup.Agreement
import Provenance.Proofs.Markup.Canonical

/-! # A fixed point of the mapper

When the written form of canonical markup is assigned, the walk never finds a difference: no
text or attribute needs a correction, no tag looks as if it was closed needlessly or by a
slash. So every written character leads back to its own place.
-/

namespace Provenance.Markup

namespace Mapper

variable {mapper : Mapper .checked} {container id : Nat} {rest : List Char}

/-- What follows a child: nothing that ends a void element, and a tag or nothing if the
    children are raw text. -/
def Follows (parentTag : String) (rest : List Char) : Prop :=
  Harmless rest ∧ (isRawText parentTag = true → ∀ c, rest.head? = some c → c = '<')

theorem follows_closingTag {tag : String} (hvoid : isVoid tag = false)
    (htag : ∀ c ∈ tag.toList, isTagChar c = true) (rest : List Char) :
    Follows tag (closingTag tag ++ rest) :=
  ⟨harmless_closingTag hvoid htag, fun _ _ hhead => (Option.some.inj hhead).symm⟩

theorem follows_nil (parentTag : String) : Follows parentTag [] :=
  ⟨harmless_nil, fun _ _ hhead => nomatch hhead⟩

/-- The children of a node, one after another. -/
theorem keeps_children
    (hcanonical : mapper.fragment.Canonical container)
    (hwithin : mapper.fragment.Within container id)
    (hfollows : Follows (mapper.fragment.tag id) rest) (depth : Nat)
    (ih : ∀ child ∈ mapper.fragment.children id, ∀ rest, Follows (mapper.fragment.tag id) rest →
      mapper.Keeps (mapper.node depth (mapper.fragment.tag id) child)
        (mapper.fragment.nodeHtml depth (mapper.fragment.tag id) child) rest) :
    mapper.Keeps
      (.all ((mapper.fragment.children id).map (mapper.node depth (mapper.fragment.tag id))))
      ((mapper.fragment.children id).flatMap
        (mapper.fragment.nodeHtml depth (mapper.fragment.tag id))) rest := by
  refine keeps_all fun front child back heq => ih child (by simp [heq]) _ ?_
  cases hraw : isRawText (mapper.fragment.tag id) with
  | true =>
      have hback : back = [] := by
        have hlength := (hcanonical.rawTexts id hwithin hraw).1
        rw [heq, List.length_append, List.length_cons] at hlength
        exact List.eq_nil_of_length_eq_zero (by omega)
      rw [hback]
      exact hfollows
  | false =>
      refine ⟨harmless_flatMap (fun other hmem => ?_) hfollows.1, fun htrue => ?_⟩
      · exact Fragment.unclosing_nodeHtml hcanonical hwithin hraw (by simp [heq, hmem]) depth
      · rw [hraw] at htrue
        cases htrue

/-- The opening tag of an element of canonical markup. -/
theorem keeps_openingTag (hend : mapper.source.contentEnd = mapper.source.chars.length)
    (hclosing : ∀ tag, mapper.closingTags tag = !isVoid tag)
    (hcanonical : mapper.fragment.Canonical container)
    (hbelow : mapper.fragment.Below container id) {node : Node} {tag : String}
    {attributes : List Attribute} (hnode : mapper.fragment.get? id = some node)
    (hkind : node.kind = .element tag attributes) (hharmless : isVoid tag = true → Harmless rest) :
    mapper.Keeps (mapper.opening id tag attributes) (openingTag tag attributes) rest := by
  have htags := hcanonical.tags id hbelow
  have hnames := hcanonical.attributes id hbelow
  have hreferences := hcanonical.attributeReferences id hbelow
  rw [Fragment.tag_of_get hnode hkind] at htags
  rw [Fragment.attributes_of_get hnode hkind] at hnames
  rw [Fragment.tag_of_get hnode hkind, Fragment.attributes_of_get hnode hkind] at hreferences
  refine keeps_opening hend id hnames hreferences fun hfalse => ?_
  have hvoid : isVoid tag = true := by simpa [hclosing] using hfalse
  exact hharmless hvoid tag hvoid htags

/-- What is between the tags of an element. -/
theorem keeps_between (hbuilt : mapper.fragment.Built)
    (hcanonical : mapper.fragment.Canonical container) (hproper : mapper.fragment.Proper id)
    {depth : Nat} (hdepth : mapper.fragment.size - id < depth + 1)
    (hbelow : mapper.fragment.Below container id) {node : Node} {tag : String}
    {attributes : List Attribute} (hnode : mapper.fragment.get? id = some node)
    (hkind : node.kind = .element tag attributes) (hfollows : Follows tag rest)
    (ih : ∀ child ∈ mapper.fragment.children id, mapper.fragment.Below container child →
      ∀ rest, Follows (mapper.fragment.parentTag child) rest →
        mapper.Keeps (mapper.node depth (mapper.fragment.parentTag child) child)
          (mapper.fragment.nodeHtml depth (mapper.fragment.parentTag child) child) rest) :
    mapper.Keeps
      (if tag = "iframe" then .advance (mapper.fragment.innerHtml id).length
        else (mapper.mark id).andThen (.all (node.children.map (mapper.node depth tag))))
      (node.children.flatMap (mapper.fragment.nodeHtml depth tag)) rest := by
  have htag := Fragment.tag_of_get hnode hkind
  split
  · rw [Fragment.innerHtml_of_element hbuilt hproper hdepth hnode hkind]
    exact keeps_advance mapper _ _
  · have helement := Fragment.tag?_ne_none_of_get hnode hkind
    rw [← htag] at hfollows
    have hchildren := keeps_children hcanonical (.inr ⟨hbelow, helement⟩) hfollows depth
      fun child hmem rest hfollows => by
        have hchild := ih child hmem (.step hbelow helement hmem) rest
        rw [Fragment.parentTag_of_child hbuilt hmem] at hchild
        exact hchild hfollows
    rw [Fragment.children_eq_of_get hnode, htag] at hchildren
    exact (keeps_emit mapper (.node id) .replaceContents _).andThen hchildren

/-- A node of canonical markup. -/
theorem keeps_node (hbuilt : mapper.fragment.Built)
    (hend : mapper.source.contentEnd = mapper.source.chars.length)
    (hclosing : ∀ tag, mapper.closingTags tag = !isVoid tag) (hignored : mapper.ignored = [])
    (hcanonical : mapper.fragment.Canonical container) (hproper : mapper.fragment.Proper id)
    {depth : Nat} (hdepth : mapper.fragment.size - id < depth)
    (hbelow : mapper.fragment.Below container id)
    (hbehind : Follows (mapper.fragment.parentTag id) rest) :
    mapper.Keeps (mapper.node depth (mapper.fragment.parentTag id) id)
      (mapper.fragment.nodeHtml depth (mapper.fragment.parentTag id) id) rest := by
  refine hbuilt.descend (motive := fun depth id => mapper.fragment.Below container id →
    ∀ rest, Follows (mapper.fragment.parentTag id) rest →
      mapper.Keeps (mapper.node depth (mapper.fragment.parentTag id) id)
        (mapper.fragment.nodeHtml depth (mapper.fragment.parentTag id) id) rest)
    ?_ hproper hdepth hbelow rest hbehind
  intro depth id hproper hdepth ih hbelow rest hbehind
  simp only [node, hignored, List.not_mem_nil, if_false, Fragment.nodeHtml]
  cases hnode : mapper.fragment.get? id with
  | none => exact keeps_stay mapper rest
  | some node =>
      cases hkind : node.kind with
      | text content =>
          obtain ⟨parent, hwithin, hmem⟩ := hbelow.exists_parent
          simp only [hkind]
          refine keeps_text hend id hbehind.2 fun hkeeps => ?_
          rw [Fragment.parentTag_of_child hbuilt hmem] at hkeeps
          exact hcanonical.references parent hwithin hkeeps id hmem content
            (Fragment.content?_of_get hnode hkind)
      | comment content =>
          simp only [hkind]
          exact keeps_comment mapper id content rest
      | element tag attributes =>
          have htag := Fragment.tag_of_get hnode hkind
          simp only [hkind, hclosing]
          cases hvoid : isVoid tag with
          | true =>
              have hnone : node.children = [] := by
                rw [← Fragment.children_eq_of_get hnode]
                exact hcanonical.voids id hbelow (by rw [htag, hvoid])
              simp only [hnone, List.isEmpty_nil, Bool.not_true, Bool.false_eq_true, if_false,
                if_true]
              exact (keeps_openingTag hend hclosing hcanonical hbelow hnode hkind
                fun _ => hbehind.1).andThen (keeps_stay mapper rest)
          | false =>
              have hchars := hcanonical.tags id hbelow
              rw [htag] at hchars
              have hfollows := follows_closingTag hvoid hchars rest
              have hbetween :=
                keeps_between hbuilt hcanonical hproper hdepth hbelow hnode hkind hfollows
                fun child hchild => (ih (Fragment.tag?_ne_none_of_get hnode hkind) child hchild).2
              have hclose := (keeps_closing mapper id tag ([] ++ rest)).andThen
                (keeps_stay mapper rest)
              rw [List.append_nil] at hclose
              simp only [Bool.not_false, Bool.false_eq_true, if_false, if_true]
              have hnever : ∀ rest, isVoid tag = true → Harmless rest := by
                intro rest htrue
                rw [hvoid] at htrue
                cases htrue
              exact (keeps_openingTag hend hclosing hcanonical hbelow hnode hkind
                (hnever _)).andThen (hbetween.andThen hclose)

/-- The content of a container of canonical markup. -/
theorem keeps_content (hbuilt : mapper.fragment.Built)
    (hend : mapper.source.contentEnd = mapper.source.chars.length)
    (hclosing : ∀ tag, mapper.closingTags tag = !isVoid tag) (hignored : mapper.ignored = [])
    (hcontainer : mapper.fragment.Proper container)
    (hcanonical : mapper.fragment.Canonical container) :
    mapper.Keeps (mapper.content container) (mapper.fragment.innerHtml container) [] := by
  have hchildren := keeps_children hcanonical (.inl rfl) (follows_nil _)
    (mapper.fragment.size + 1) fun child hmem rest hfollows => by
      obtain ⟨-, hproper⟩ := hbuilt.child_of_proper hcontainer hmem
      have hbound : mapper.fragment.size - child < mapper.fragment.size + 1 := by omega
      have hparent := Fragment.parentTag_of_child hbuilt hmem
      have hchild :=
        keeps_node hbuilt hend hclosing hignored hcanonical hproper hbound (.child hmem)
        (by rw [hparent]; exact hfollows)
      rwa [hparent] at hchild
  exact (keeps_emit mapper (.node container) .replaceContents _).andThen hchildren

theorem contentEnd_ofAssignment (closingTags : ClosingTags) (fragment : Fragment)
    (container : NodeId) {assigned : Operand RecordId} {html : List Char}
    (hassigned : assignedText assigned = String.ofList html) (hsize : html.length < lengthLimit) :
    (ofAssignment .checked closingTags fragment container assigned {}).source =
      ⟨html, (html.length : Int)⟩ := by
  simp only [ofAssignment, MapOptions.stop, hassigned, String.toList_ofList, String.length_ofList,
    Option.getD_none, UInt64.toInt64_ofNat', toInt_ofNat_of_lt hsize]

end Mapper

/-- If the walk keeps the whole written form, there is no diagnostic and no correction. -/
theorem plain_of_keeps {fragment : Fragment} {container : NodeId} {closingTags : ClosingTags}
    {assigned : Operand RecordId} {html : List Char}
    (hassigned : assignedText assigned = String.ofList html) (hsize : html.length < lengthLimit)
    (hkeeps : (Mapper.ofAssignment .checked closingTags fragment container assigned {}).Keeps
      ((Mapper.ofAssignment .checked closingTags fragment container assigned {}).content container)
      html []) :
    (map closingTags fragment container assigned {}).diagnostics = [] ∧
      ∀ mapped ∈ (map closingTags fragment container assigned {}).origins,
        mapped.origin.Plain := by
  let mapper := Mapper.ofAssignment .checked closingTags fragment container assigned {}
  have hsource : mapper.source = ⟨html, _⟩ :=
    Mapper.contentEnd_ofAssignment closingTags fragment container hassigned hsize
  obtain ⟨hcursor, hdiagnostics, hplain⟩ := hkeeps [] (by
    rw [show mapper.source.chars = _ by rw [hsource]]
    simp)
  have hassignedEnd : (mapper.content container ⟨0, 0⟩).1.assigned =
      mapper.source.contentEnd := by
    rw [hsource]
    simpa [Cursor.assigned] using congrArg Cursor.assigned hcursor
  refine ⟨?_, ?_⟩
  · exact (Mapper.clean_map_iff closingTags fragment container assigned).mpr
      ⟨hdiagnostics, hassignedEnd⟩
  · rw [Mapper.origins_map]
    exact hplain

/-- The written form of canonical markup is mapped without a diagnostic or a correction. -/
theorem plain_map {fragment : Fragment} {container : Nat} {closingTags : ClosingTags}
    (hbuilt : fragment.Built) (hproper : fragment.Proper container)
    (hcanonical : fragment.Canonical container)
    (hsize : (fragment.innerHtml container).length < lengthLimit)
    (hremembers : closingTags.Remembers .byVoidTags) {assigned : Operand RecordId}
    (hassigned : assignedText assigned = String.ofList (fragment.innerHtml container)) :
    (map closingTags fragment container assigned {}).diagnostics = [] ∧
      ∀ mapped ∈ (map closingTags fragment container assigned {}).origins,
        mapped.origin.Plain := by
  let mapper := Mapper.ofAssignment .checked closingTags fragment container assigned {}
  have hend : mapper.source.contentEnd = mapper.source.chars.length := by
    rw [Mapper.contentEnd_ofAssignment closingTags fragment container hassigned hsize]
  exact plain_of_keeps hassigned hsize
    (Mapper.keeps_content hbuilt hend hremembers.eq_not_isVoid rfl hproper hcanonical)

/-- A character outside of gaps leads where every origin that covers it says. -/
theorem originAt_of_covered {fragment : Fragment} {container : Nat} {closingTags : ClosingTags}
    (hbuilt : fragment.Built) (hproper : fragment.Proper container)
    (hsize : (fragment.innerHtml container).length < lengthLimit)
    (hremembers : closingTags.Remembers .byVoidTags) {assigned : Operand RecordId}
    {index place : Nat} (hlt : index < (fragment.innerHtml container).length)
    (hgap : Piece.gapAt (fragment.contentPieces [] container) index = false)
    (hplace : ∀ mapped ∈ (map closingTags fragment container assigned {}).origins,
      mapped.origin.covers index = true → mapped.origin.assignedIndex index = some place) :
    ∃ resolved, (Snapshot.capture fragment container
        (map closingTags fragment container assigned {}).origins).originAt index = some resolved ∧
      resolved.charIndex = place ∧ resolved.origin.tracking = assigned.tracking := by
  have hwords : (fragment.innerHtml container).length < UInt64.size :=
    Nat.lt_trans hsize (by decide)
  have hbefore := before_map .checked hbuilt hproper hwords hremembers assigned {}
  obtain ⟨mapped, hmem, hcovers⟩ :=
    (covered_map .checked hbuilt hproper hwords hremembers assigned {} hlt).mpr hgap
  have hlookup := Mapping.originAt_of_covers hbefore (List.mem_map.mpr ⟨mapped, hmem, rfl⟩) hcovers
  rw [hplace mapped hmem hcovers] at hlookup
  have hinside : index < (Snapshot.capture fragment container
      (map closingTags fragment container assigned {}).origins).html.length := by
    simpa only [Snapshot.capture, String.length_ofList] using hlt
  rw [Snapshot.originAt, if_pos hinside]
  exact ⟨_, hlookup, rfl, tracking_map .checked hbuilt hproper hremembers assigned {} hmem⟩

/-- When the written form of canonical markup is assigned, a character outside of inline frames
    leads back to its own index in the record that was assigned. -/
theorem originAt_canonical {fragment : Fragment} {container : Nat} {closingTags : ClosingTags}
    (hbuilt : fragment.Built) (hproper : fragment.Proper container)
    (hcanonical : fragment.Canonical container)
    (hsize : (fragment.innerHtml container).length < lengthLimit)
    (hremembers : closingTags.Remembers .byVoidTags) {assigned : Operand RecordId}
    (hassigned : assignedText assigned = String.ofList (fragment.innerHtml container))
    {index : Nat} (hlt : index < (fragment.innerHtml container).length)
    (hgap : Piece.gapAt (fragment.contentPieces [] container) index = false) :
    ∃ resolved, (Snapshot.capture fragment container
        (map closingTags fragment container assigned {}).origins).originAt index = some resolved ∧
      resolved.charIndex = index ∧ resolved.origin.tracking = assigned.tracking := by
  obtain ⟨-, hplain⟩ := plain_map hbuilt hproper hcanonical hsize hremembers hassigned
  refine originAt_of_covered hbuilt hproper hsize hremembers hlt hgap fun mapped hmem hcovers => ?_
  exact (hplain mapped hmem).assignedIndex (Mapping.lt_of_covers hcovers).1 (Nat.lt_trans hlt hsize)

/-- Canonical markup is a fixed point of the mapper: when its written form is assigned, there
    is no diagnostic, and every character leads back to its own index, unless it belongs to
    the content of an inline frame. Those characters lead nowhere. -/
theorem map_canonical {fragment : Fragment} {container : NodeId} {closingTags : ClosingTags}
    (hbuilt : fragment.Built) (hproper : fragment.Proper container)
    (hcanonical : fragment.Canonical container)
    (hsize : (fragment.innerHtml container).length < lengthLimit)
    (hremembers : closingTags.Remembers .byVoidTags) {assigned : Operand RecordId}
    (hassigned : assignedText assigned = String.ofList (fragment.innerHtml container)) :
    let html := fragment.innerHtml container
    let report := map closingTags fragment container assigned {}
    let pieces := fragment.contentPieces [] container
    report.diagnostics = [] ∧
    pieces.flatMap Piece.text = html ∧
    (∀ text, .gap text ∈ pieces ↔ ∃ id, fragment.Below container id ∧
      fragment.tag? id = some "iframe" ∧ text = fragment.innerHtml id) ∧
    ∀ index < html.length,
      ((Snapshot.capture fragment container report.origins).originAt index).map
        ResolvedOrigin.charIndex = if Piece.gapAt pieces index then none else some index := by
  intro html report pieces
  have hwords : html.length < UInt64.size := Nat.lt_trans hsize (by decide)
  obtain ⟨hdiagnostics, -⟩ := plain_map hbuilt hproper hcanonical hsize hremembers hassigned
  refine ⟨hdiagnostics, Fragment.written_contentPieces [] hbuilt hproper,
    fun _ => Fragment.gap_mem_contentPieces_iff hbuilt hproper hcanonical, fun index hlt => ?_⟩
  have hcovered := covered_map .checked hbuilt hproper hwords hremembers assigned {} hlt
  cases hgap : Piece.gapAt pieces index with
  | true =>
      have hnone : ∀ origin ∈ report.origins.map MappedOrigin.origin,
          origin.covers index = false := by
        intro origin hmem
        obtain ⟨mapped, hmapped, rfl⟩ := List.mem_map.mp hmem
        refine Bool.eq_false_iff.mpr fun hcovers => ?_
        have hnot := hcovered.mp ⟨mapped, hmapped, hcovers⟩
        rw [show Piece.gapAt _ index = true from hgap] at hnot
        cases hnot
      have hinside : index < (Snapshot.capture fragment container report.origins).html.length := by
        simpa only [Snapshot.capture, String.length_ofList] using hlt
      have hlookup := Mapping.originAt_of_not_covers hnone
      rw [Snapshot.originAt, if_pos hinside, if_pos rfl]
      exact congrArg (Option.map ResolvedOrigin.charIndex) hlookup
  | false =>
      obtain ⟨resolved, hlookup, hindex, -⟩ :=
        originAt_canonical hbuilt hproper hcanonical hsize hremembers hassigned hlt hgap
      rw [hlookup, if_neg Bool.false_ne_true]
      exact congrArg some hindex

/-- A paragraph with a line break, an inline frame, and what is shown without scripts. -/
def letter : Fragment :=
  (Fragment.new "div").appendElement 0 "p" [⟨"title", "a & b"⟩]
    |>.appendText 1 "x < &lt;"
    |>.appendElement 1 "br" []
    |>.appendElement 0 "iframe" []
    |>.appendText 4 "<b>"
    |>.appendElement 0 "noscript" []
    |>.appendText 6 "off"

theorem letter_built : letter.Built :=
  .text (.element (.text (.element (.element (.text (.element (.new _) _ _ _) _ _) _ _ _)
    _ _ _) _ _) _ _ _) _ _

theorem letter_canonical : letter.Canonical 0 := by
  have hbelow : ∀ {id : NodeId}, letter.Below 0 id → id < letter.size :=
    fun hbelow => letter_built.lt_of_below hbelow
  have hwithin : ∀ {id : NodeId}, letter.Within 0 id → id < letter.size := by
    rintro id (rfl | ⟨hdescends, -⟩)
    · decide
    · exact hbelow hdescends
  constructor
  case tags =>
      have hall : ∀ id < letter.size, (letter.tag id).toList.all isTagChar = true := by
        decide +kernel
      exact fun id hdescends => List.all_eq_true.mp (hall id (hbelow hdescends))
  case attributes =>
      have hall : ∀ id < letter.size, ∀ attr ∈ letter.attributes id,
          attr.name.toList.head? = some 't' := by decide +kernel
      intro id hdescends attr hattr c hchar
      rw [hall id (hbelow hdescends) attr hattr] at hchar
      obtain rfl := Option.some.inj hchar
      decide
  case voids =>
      have hall : ∀ id < letter.size, isVoid (letter.tag id) = true →
          letter.children id = [] := by decide +kernel
      exact fun id hdescends => hall id (hbelow hdescends)
  case rawTexts =>
      have hall : ∀ id < letter.size, isRawText (letter.tag id) = true →
          (letter.children id).length ≤ 1 ∧
            ∀ child ∈ letter.children id, letter.content? child ≠ none := by decide +kernel
      exact fun id hreached => hall id (hwithin hreached)
  case references =>
      have hall : ∀ id < letter.size, keepsReferences (letter.tag id) = true → id = 6 := by
        decide +kernel
      intro id hreached hkeeps
      obtain rfl : id = 6 := hall id (hwithin hreached) hkeeps
      decide +kernel
  case attributeReferences =>
      have hall : ∀ id < letter.size, keepsReferences (letter.tag id) = true →
          ∀ attr ∈ letter.attributes id, '&' ∉ attr.value.toList := by decide +kernel
      exact fun id hdescends => hall id (hbelow hdescends)

/-- The three characters inside the inline frame lead nowhere. -/
theorem map_canonical_letter :
    let html := ("<p title=\"a &amp; b\">x &lt; &amp;lt;<br></p>" ++
      "<iframe><b></iframe><noscript>off</noscript>").toList
    let report := map ClosingTags.byVoidTags.folded letter 0 { value := .str (String.ofList html) }
      {}
    letter.innerHtml 0 = html ∧ html.length = 88 ∧ report.diagnostics = [] ∧
      ∀ index < 88, ((Snapshot.capture letter 0 report.origins).originAt index).map
        ResolvedOrigin.charIndex =
          if 52 ≤ index ∧ index < 55 then none else some index := by
  intro html report
  have hhtml : letter.innerHtml 0 = html := by decide +kernel
  have hlength : html.length = 88 := by decide +kernel
  have hproper : letter.Proper 0 := by decide
  have hsize : (letter.innerHtml 0).length < lengthLimit := by
    rw [hhtml, hlength]
    decide
  have hassigned : assignedText { value := .str (String.ofList html) } =
      String.ofList (letter.innerHtml 0) := by
    rw [hhtml]
    rfl
  obtain ⟨hdiagnostics, -, -, horigins⟩ := map_canonical letter_built hproper letter_canonical
    hsize (ClosingTags.folded_remembers _) hassigned
  refine ⟨hhtml, hlength, hdiagnostics, fun index hlt => ?_⟩
  have hgap : ∀ index < 88, Piece.gapAt (letter.contentPieces [] 0) index =
      decide (52 ≤ index ∧ index < 55) := by decide +kernel
  rw [horigins index (by rw [hhtml, hlength]; exact hlt), hgap index hlt]
  simp only [decide_eq_true_eq]

end Provenance.Markup
