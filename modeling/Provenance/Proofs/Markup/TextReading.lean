import Provenance.Proofs.Markup.Stepping

/-! # Reading texts

The walk passes over a text as its correction table does. If the table steps over the pieces of
the text one by one, the text is read as the passage of the pieces. So what the parser made of a
text is undone, however its characters were assigned, if the pieces fit.
-/

namespace Provenance.Markup

namespace Mapper

theorem content_of_text {mapper : Mapper .checked} {container child : NodeId} {content : String}
    (hignored : child ∉ mapper.ignored) (hchild : mapper.fragment.children container = [child])
    (hcontent : mapper.fragment.content? child = some content) :
    mapper.content container = (mapper.mark container).andThen
      ((mapper.text child (mapper.fragment.tag container) content).andThen .stay) := by
  obtain ⟨node, hnode, hkind⟩ := Fragment.exists_of_content? hcontent
  rw [Mapper.content, hchild, List.map_singleton, Walk.all, Walk.all]
  simp only [Mapper.node, if_neg hignored, hnode, hkind]

/-- An element that holds a single text is read as the text is. -/
theorem reads_content_of_text {mapper : Mapper .checked} {container child : NodeId}
    {content : String}
    (hignored : child ∉ mapper.ignored) (hchild : mapper.fragment.children container = [child])
    (hcontent : mapper.fragment.content? child = some content) {passage : Passage}
    {rest : List Char}
    (htext : mapper.Reads (mapper.text child (mapper.fragment.tag container) content) passage
      rest) : mapper.Reads (mapper.content container) passage rest := by
  rw [content_of_text hignored hchild hcontent, ← Passage.empty_append passage,
    ← Passage.append_empty passage]
  exact (mapper.reads_emit _ _ _).andThen (htext.andThen (mapper.reads_stay rest))

/-- A text is read as the passage of its pieces if its table steps over them one by one. -/
theorem reads_text_of_steps (mapper : Mapper .checked) (id : NodeId) {parentTag content : String}
    {escape : Char → List Char} {pieces : List CharSource} {rest : List Char}
    (hwritten : escapeText parentTag content.toList =
      pieces.flatMap (CharSource.written escape))
    (hlead : ∀ piece ∈ pieces, ∀ relative < (piece.written escape).length,
      piece.lead relative < piece.source.length)
    (hsteps : ∀ before : List Char,
      mapper.source.chars = before ++ (pieces.flatMap CharSource.source ++ rest) →
      (before.length + (pieces.flatMap CharSource.source).length : Nat) ≤
        mapper.source.contentEnd →
      ∀ front piece back, pieces = front ++ piece :: back →
        mapper.source.StepsOver (keepsReferences parentTag) escape
          (before ++ front.flatMap CharSource.source) piece
          (back.flatMap (CharSource.written escape))) :
    mapper.Reads (mapper.text id parentTag content)
      (.join (pieces.map (CharSource.passage escape))) rest := by
  have hlength := CharSource.length_leads_join escape pieces
  refine mapper.reads_text_of_table id (hlength.trans (congrArg List.length hwritten.symm))
    fun before hsource hend => ?_
  rw [CharSource.source_join] at hsource hend
  rw [CharSource.source_join, Source.table, hwritten]
  obtain ⟨htotal, -, hleads⟩ := Source.corrections_of_steps (hsteps before hsource hend) hlead 0
  refine ⟨htotal.trans (by rw [hlength, Int.zero_add]), fun k place hget => ?_⟩
  obtain ⟨hplace, hentry⟩ := hleads k place hget
  rw [Int.sub_zero] at hentry
  exact ⟨Nat.le_of_lt hplace, hentry⟩

/-- A text outside of raw text is read however its characters were assigned. -/
theorem reads_text (mapper : Mapper .checked) (id : NodeId) {parentTag content : String}
    {pieces : List CharSource} {rest : List Char} (hraw : isRawText parentTag = false)
    (hkeeps : keepsReferences parentTag = false)
    (hcontent : content.toList = pieces.map CharSource.decoded)
    (hfit : CharSource.Fit escapeTextChar pieces rest) :
    mapper.Reads (mapper.text id parentTag content)
      (.join (pieces.map (CharSource.passage escapeTextChar))) rest := by
  refine mapper.reads_text_of_steps id ?_ (fun piece hmem _ => hfit.lead_lt hmem) ?_
  · rw [escapeText_of_not_raw hraw, hcontent, CharSource.flatMap_decoded]
  · rintro before hsource hend front piece back rfl
    rw [hkeeps]
    exact Source.stepsOver_of_fit escaping_text rfl hfit hsource hend _

end Mapper

/-- The content of an element that holds a single text, written as the text. -/
theorem Fragment.innerHtml_of_text {fragment : Fragment} {container child : NodeId}
    {content : String} (hchild : fragment.children container = [child])
    (hcontent : fragment.content? child = some content) :
    fragment.innerHtml container = escapeText (fragment.tag container) content.toList := by
  obtain ⟨node, hnode, hkind⟩ := exists_of_content? hcontent
  simp [innerHtml, hchild, nodeHtml, hnode, hkind]

/-- A text is no element, so an element that holds a single text is not its own child. -/
theorem Fragment.proper_of_text {fragment : Fragment} {container child : NodeId}
    {content : String} (hchild : fragment.children container = [child])
    (hcontent : fragment.content? child = some content) : fragment.Proper container := by
  intro htag hself
  rw [hchild, List.mem_singleton] at hself
  subst hself
  obtain ⟨node, hnode, hkind⟩ := exists_of_content? hcontent
  obtain ⟨other, tag, attributes, hother, helement⟩ := exists_of_tag?_ne_none htag
  rw [hnode, Option.some.injEq] at hother
  rw [← hother, hkind] at helement
  cases helement

section SingleText

variable {fragment : Fragment} {container child : NodeId} {content : String}
  {closingTags : ClosingTags} {assigned : Operand RecordId}

/-- The walk over an element that holds a single text, by the correction table of the text. -/
theorem Mapper.content_of_table (hchild : fragment.children container = [child])
    (hcontent : fragment.content? child = some content) :
    let mapper := ofAssignment .checked closingTags fragment container assigned {}
    let html := fragment.innerHtml container
    let table := mapper.source.table (fragment.tag container) html 0
    ∃ sums, mapper.content container ⟨0, 0⟩ = (⟨html.length, table.2⟩, {
      origins := [mapper.origin (.node container) .replaceContents 0 0 0 none,
        mapper.origin (.node child) .textValue 0 html.length 0
          (if table.1.isEmpty then none else some table.1)]
      sums }) := by
  intro mapper html table
  obtain ⟨sums, htext⟩ : ∃ sums, mapper.text child (mapper.fragment.tag container) content ⟨0, 0⟩ =
      (⟨0 + html.length, 0 + table.2⟩, {
        origins := [mapper.origin (.node child) .textValue 0 html.length 0
          (if table.1.isEmpty then none else some table.1)]
        sums }) := by
    simp only [html, table, Fragment.innerHtml_of_text hchild hcontent]
    exact ⟨_, rfl⟩
  rw [content_of_text List.not_mem_nil hchild hcontent]
  simp only [Walk.andThen, mark, emit, Walk.stay, htext, Nat.zero_add, Int.zero_add]
  exact ⟨_, rfl⟩

/-- Where a character of a single text leads, by the correction table of the text. -/
theorem originAt_of_table (hbuilt : fragment.Built) (hremembers : closingTags.Remembers .byVoidTags)
    (hchild : fragment.children container = [child])
    (hcontent : fragment.content? child = some content)
    (hsize : (fragment.innerHtml container).length < lengthLimit) {k place : Nat}
    (hlt : k < (fragment.innerHtml container).length) (hplace : place < lengthLimit)
    (hentry :
      ((Mapper.ofAssignment .checked closingTags fragment container assigned {}).source.table
        (fragment.tag container) (fragment.innerHtml container) 0).1[k]? =
          some ((place : Int) - k)) :
    ((Snapshot.capture fragment container
      (map closingTags fragment container assigned {}).origins).originAt k).map
        ResolvedOrigin.charIndex = some place := by
  let mapper := Mapper.ofAssignment .checked closingTags fragment container assigned {}
  let html := fragment.innerHtml container
  let table := mapper.source.table (fragment.tag container) html 0
  let mapped := mapper.origin (.node child) .textValue 0 html.length 0
    (if table.1.isEmpty then none else some table.1)
  have hmem : mapped ∈ (map closingTags fragment container assigned {}).origins := by
    rw [Mapper.origins_map]
    change mapped ∈ (mapper.content container ⟨0, 0⟩).2.origins
    obtain ⟨sums, hwalk⟩ : ∃ sums, mapper.content container ⟨0, 0⟩ = (_, ⟨_, _, sums⟩) :=
      Mapper.content_of_table hchild hcontent
    rw [hwalk]
    exact List.mem_cons_of_mem _ (List.mem_singleton_self _)
  refine originAt_of_leadsTo hbuilt (Fragment.proper_of_text hchild hcontent) hsize hremembers hmem
    ⟨.node child, .textValue, 0, html.length, 0, _, rfl, Nat.zero_le k, ?_, ?_, ?_⟩ hplace
  · rwa [Nat.zero_add]
  · exact Nat.le_of_eq (Nat.zero_add _)
  · rw [Nat.sub_zero, assignedPosition_table hentry]
    omega

/-- What the mapping of a single text reports, by the correction table of the text. -/
theorem diagnostics_of_table (hchild : fragment.children container = [child])
    (hcontent : fragment.content? child = some content) :
    let mapper := Mapper.ofAssignment .checked closingTags fragment container assigned {}
    let html := fragment.innerHtml container
    let reached : Int := html.length - (mapper.source.table (fragment.tag container) html 0).2
    (map closingTags fragment container assigned {}).diagnostics =
      if reached = mapper.source.contentEnd then [] else [⟨html.length, reached,
        .endsElsewhere reached (UInt64.ofNat (assignedText assigned).length).toNat⟩] := by
  intro mapper html reached
  obtain ⟨sums, hwalk⟩ : ∃ sums, mapper.content container ⟨0, 0⟩ = (_, ⟨_, _, sums⟩) :=
    Mapper.content_of_table hchild hcontent
  rw [Mapper.diagnostics_map]
  simp only [mapper] at hwalk
  simp only [hwalk]
  rfl

/-- Where the pieces of a single text fit, the text is read to its end. -/
theorem map_of_fit (hbuilt : fragment.Built) (hremembers : closingTags.Remembers .byVoidTags)
    (hchild : fragment.children container = [child])
    (hraw : isRawText (fragment.tag container) = false)
    (hkeeps : keepsReferences (fragment.tag container) = false) {pieces : List CharSource}
    (hfit : CharSource.Fit escapeTextChar pieces [])
    (hcontent : fragment.content? child =
      some (String.ofList (pieces.map CharSource.decoded)))
    (hassigned : assignedText assigned = String.ofList (pieces.flatMap CharSource.source))
    (hsize : (fragment.innerHtml container).length < lengthLimit)
    (hlength : (assignedText assigned).length < lengthLimit) :
    let report := map closingTags fragment container assigned {}
    report.diagnostics = [] ∧
    ∀ front piece back, pieces = front ++ piece :: back →
      ∀ relative < (piece.written escapeTextChar).length,
        ((Snapshot.capture fragment container report.origins).originAt
          ((front.flatMap (CharSource.written escapeTextChar)).length + relative)).map
            ResolvedOrigin.charIndex =
              some ((front.flatMap CharSource.source).length + piece.lead relative) := by
  intro report
  have hproper := Fragment.proper_of_text hchild hcontent
  let mapper := Mapper.ofAssignment .checked closingTags fragment container assigned {}
  let passage := Passage.join (pieces.map (CharSource.passage escapeTextChar))
  have htext : mapper.Reads (mapper.text child (fragment.tag container)
      (String.ofList (pieces.map CharSource.decoded))) passage [] :=
    mapper.reads_text child hraw hkeeps String.toList_ofList hfit
  have hreads : mapper.Reads (mapper.content container) passage [] :=
    Mapper.reads_content_of_text List.not_mem_nil hchild hcontent htext
  have hsource : passage.source = pieces.flatMap CharSource.source :=
    CharSource.source_join escapeTextChar pieces
  rw [hassigned, String.length_ofList, ← hsource] at hlength
  rw [← hsource] at hassigned
  obtain ⟨hclean, hleads⟩ := map_of_reads hbuilt hproper hsize hremembers hassigned hlength hreads
  refine ⟨hclean, fun front piece back heq relative hlt => hleads _ _ ?_⟩
  simp only [passage, heq]
  exact CharSource.leads_join front back hlt

end SingleText

/-- What the parser made of a text is undone exactly: when a text was assigned as any mix of
    characters, line ends and references, nothing is reported, and every written character leads
    to the piece that it stands for. -/
theorem map_text_undone {fragment : Fragment} {container child : NodeId}
    {closingTags : ClosingTags} (hbuilt : fragment.Built)
    (hremembers : closingTags.Remembers .byVoidTags)
    (hchild : fragment.children container = [child])
    (hraw : isRawText (fragment.tag container) = false)
    (hkeeps : keepsReferences (fragment.tag container) = false) {pieces : List CharSource}
    (hfit : CharSource.Fit escapeTextChar pieces [])
    (hcontent : fragment.content? child =
      some (String.ofList (pieces.map CharSource.decoded)))
    {assigned : Operand RecordId}
    (hassigned : assignedText assigned = String.ofList (pieces.flatMap CharSource.source))
    (hsize : (fragment.innerHtml container).length < lengthLimit)
    (hlength : (assignedText assigned).length < lengthLimit) :
    let report := map closingTags fragment container assigned {}
    report.diagnostics = [] ∧
    fragment.innerHtml container = pieces.flatMap (CharSource.written escapeTextChar) ∧
    ∀ front piece back, pieces = front ++ piece :: back →
      ∀ relative < (piece.written escapeTextChar).length,
        ((Snapshot.capture fragment container report.origins).originAt
          ((front.flatMap (CharSource.written escapeTextChar)).length + relative)).map
            ResolvedOrigin.charIndex =
              some ((front.flatMap CharSource.source).length + piece.lead relative) := by
  intro report
  obtain ⟨hclean, hleads⟩ :=
    map_of_fit hbuilt hremembers hchild hraw hkeeps hfit hcontent hassigned hsize hlength
  refine ⟨hclean, ?_, hleads⟩
  rw [Fragment.innerHtml_of_text hchild hcontent, escapeText_of_not_raw hraw,
    String.toList_ofList, CharSource.flatMap_decoded]

/-- A text of each kind of piece: `a`, an escaped `<`, a bare ampersand, a line end, and a
    decoded reference. -/
def mixedPieces : List CharSource :=
  [.itself 'a', .reference "lt".toList '<', .itself '&', .lineEnd, .reference "eacute".toList 'é']

/-- The ampersand is written with more characters than it was assigned with, and the last
    reference with fewer. -/
theorem map_text_undone_mixed :
    let fragment := (Fragment.new "div").appendText 0 "a<&\né"
    let report := map ClosingTags.byVoidTags.folded fragment 0
      { value := .str "a&lt;&\r\n&eacute;" } {}
    report.diagnostics = [] ∧
    fragment.innerHtml 0 = "a&lt;&amp;\né".toList ∧
    ((Snapshot.capture fragment 0 report.origins).originAt 3).map ResolvedOrigin.charIndex =
      some 3 ∧
    ((Snapshot.capture fragment 0 report.origins).originAt 9).map ResolvedOrigin.charIndex =
      some 5 ∧
    ((Snapshot.capture fragment 0 report.origins).originAt 11).map ResolvedOrigin.charIndex =
      some 8 := by
  intro fragment report
  have hbuilt : fragment.Built := .text (.new _) _ _
  obtain ⟨hclean, hwritten, hleads⟩ := @map_text_undone fragment 0 1 _ hbuilt
    (ClosingTags.folded_remembers _) (by decide) (by decide) (by decide) mixedPieces (by decide)
    (by decide) { value := .str "a&lt;&\r\n&eacute;" } (by decide) (by decide) (by decide +kernel)
  refine ⟨hclean, hwritten.trans (by decide), ?_, ?_, ?_⟩
  · exact hleads [.itself 'a'] _ _ rfl 2 (by decide)
  · exact hleads [.itself 'a', .reference "lt".toList '<'] _ _ rfl 4 (by decide)
  · exact hleads (mixedPieces.take 4) _ [] rfl 0 (by decide)

end Provenance.Markup
