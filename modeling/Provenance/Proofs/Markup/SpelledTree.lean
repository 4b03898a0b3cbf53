import Provenance.Proofs.Markup.TagSpelling

/-! # Documents as they were assigned

The tags of a document can be assigned in many ways, each element in its own. The pieces of the
written form are laid out beside what they were assigned as. No sibling is taken for the needless
closing tag of an element, so the walk reads one node after another, and every character of a tag
or a text leads to the one that it was assigned as.
-/

namespace Provenance.Markup

open Provenance.Text (isBlank)

/-- A piece of written markup, and what it was assigned as. -/
structure Spelled where
  piece : Piece
  source : List Char
  deriving DecidableEq, Repr

namespace Spelled

/-- Whether every character of a piece leads to the one that it was assigned as: at the beginning
    of tags, in text, and in closing tags that were assigned. -/
def led : Spelled → Bool
  | ⟨.span _ .openingTagStart _, _⟩ => true
  | ⟨.span _ .textValue _, _⟩ => true
  | ⟨.span _ .closingTag _, source⟩ => !source.isEmpty
  | _ => false

def passage (spelled : Spelled) : Passage :=
  if spelled.led then .same spelled.source
  else .unled spelled.source spelled.piece.text.length

def join (spelled : List Spelled) : Passage := .join (spelled.map passage)

theorem source_passage (spelled : Spelled) : spelled.passage.source = spelled.source := by
  unfold passage
  split
  · rfl
  · rfl

theorem source_join (spelled : List Spelled) : (join spelled).source = spelled.flatMap source := by
  rw [join, Passage.source_join, List.flatMap_map]
  exact List.flatMap_congr fun one _ => one.source_passage

theorem join_cons (one : Spelled) (rest : List Spelled) :
    join (one :: rest) = one.passage ++ join rest := rfl

theorem join_singleton (one : Spelled) : join [one] = one.passage := Passage.append_empty _

theorem join_append (front back : List Spelled) :
    join (front ++ back) = join front ++ join back := by
  rw [join, List.map_append, Passage.join_append, join, join]

theorem join_flatMap (items : List α) (spelled : α → List Spelled) :
    join (items.flatMap spelled) = .join (items.map fun item => join (spelled item)) := by
  rw [join, List.map_flatMap, Passage.join_flatMap]
  rfl

end Spelled

namespace Fragment

/-- The pieces of a node, with the tags of every element assigned in its own way and everything
    else assigned as it is. -/
def nodeSpelled (fragment : Fragment) (spelling : NodeId → TagSpelling) :
    (depth : Nat) → (parentTag : String) → NodeId → List Spelled
  | 0, _, _ => []
  | depth + 1, parentTag, id =>
    match fragment.get? id with
    | none => []
    | some node =>
      match node.kind with
      | .text content =>
        [⟨.span (.node id) .textValue (escapeText parentTag content.toList), content.toList⟩]
      | .comment content => (commentPieces id content).map fun piece => ⟨piece, piece.text⟩
      | .element tag _ =>
        let tags := spelling id
        ⟨.span (.node id) .openingTagStart ('<' :: tag.toList), '<' :: tags.name⟩ ::
          if isVoid tag then
            [⟨.span (.node id) .openingTagEnd ['>'],
              tags.blanks ++ (tags.ending.opening ++ tags.ending.closing)⟩]
          else
            ⟨.span (.node id) .openingTagEnd ['>'], tags.blanks ++ tags.ending.opening⟩ ::
              ((if tag = "iframe" then [⟨.gap (fragment.innerHtml id), fragment.innerHtml id⟩]
                else ⟨.span (.node id) .replaceContents [], []⟩ ::
                  node.children.flatMap (fragment.nodeSpelled spelling depth tag)) ++
                [⟨.span (.node id) .closingTag (closingTag tag), tags.ending.closing⟩])

/-- The pieces of the content of a container, with what they were assigned as. -/
def contentSpelled (fragment : Fragment) (spelling : NodeId → TagSpelling)
    (container : NodeId) : List Spelled :=
  ⟨.span (.node container) .replaceContents [], []⟩ ::
    (fragment.children container).flatMap
      (fragment.nodeSpelled spelling (fragment.size + 1) (fragment.tag container))

/-- Whether the nodes below a container are elements without attributes, comments, and texts that
    are written as they are. -/
structure Bare (fragment : Fragment) (container : NodeId) : Prop where
  tags : ∀ id, fragment.Below container id → ∀ c ∈ (fragment.tag id).toList,
    c.isAlphanum = true ∨ c = '-'
  attributes : ∀ id, fragment.Below container id → fragment.attributes id = []
  voids : ∀ id, fragment.Below container id → isVoid (fragment.tag id) = true →
    fragment.children id = []
  texts : ∀ id, fragment.Below container id → ∀ content ∈ fragment.content? id,
    ∀ c ∈ content.toList, c ∉ ['&', '<', '>', '\u00a0']

/-- Whether the tags of every element below a container can be assigned as it is said. -/
def Spells (fragment : Fragment) (spelling : NodeId → TagSpelling) (container : NodeId) : Prop :=
  ∀ id, fragment.Below container id → fragment.tag? id ≠ none →
    (spelling id).Fits (fragment.tag id) (fragment.children id = [])

variable {fragment : Fragment} {container id : Nat}

theorem kind?_append (fragment : Fragment) (parent : Nat) (kind : NodeKind) (id : Nat) :
    (fragment.append parent kind).kind? id =
      if id = fragment.size then some kind else fragment.kind? id := by
  rw [kind?, get?_append]
  by_cases hnew : id = fragment.size
  · rw [if_pos hnew, if_pos hnew]
    simp only [Option.map_some]
    split
    · rfl
    · rfl
  · rw [if_neg hnew, if_neg hnew, kind?]
    cases fragment.get? id with
    | none => rfl
    | some node =>
        simp only [Option.map_some]
        split
        · rfl
        · rfl

theorem lowerAscii_lowerAscii (text : String) : lowerAscii (lowerAscii text) = lowerAscii text := by
  rw [lowerAscii, lowerAscii, String.toList_ofList, List.map_map]
  exact congrArg String.ofList (List.map_congr_left fun c _ => toLower_toLower c)

/-- A fragment keeps its tags in lower case. -/
theorem Built.lowerAscii_tag (hbuilt : fragment.Built) {tag : String} {attributes : List Attribute}
    (hkind : fragment.kind? id = some (.element tag attributes)) : lowerAscii tag = tag := by
  induction hbuilt with
  | new name =>
      cases id with
      | zero =>
          obtain ⟨rfl, -⟩ := NodeKind.element.inj (Option.some.inj hkind)
          exact lowerAscii_lowerAscii name
      | succ id => cases hkind
  | element _ parent name _ ih =>
      rw [appendElement, kind?_append] at hkind
      split at hkind
      · obtain ⟨rfl, -⟩ := NodeKind.element.inj (Option.some.inj hkind)
        exact lowerAscii_lowerAscii name
      · exact ih hkind
  | text _ parent content ih =>
      rw [appendText, kind?_append] at hkind
      split at hkind
      · cases hkind
      · exact ih hkind
  | comment _ parent content ih =>
      rw [appendComment, kind?_append] at hkind
      split at hkind
      · cases hkind
      · exact ih hkind

theorem toLower_ne_of_isUpper {c : Char} (hupper : c.isUpper = true) : c.toLower ≠ c := by
  have hcapital : c.val ≥ 'A'.val ∧ c.val ≤ 'Z'.val := of_decide_eq_true hupper
  have hlast : c.toNat ≤ 'Z'.toNat := UInt32.le_iff_toNat_le.mp hcapital.2
  have hascii : c.toNat < 0x80 := Nat.lt_of_le_of_lt hlast (by decide)
  exact @Text.of_ascii (fun c => c.isUpper = true → c.toLower ≠ c) (by decide) c hascii hupper

theorem isTagChar_of_lower {c : Char} (hchar : c.isAlphanum = true ∨ c = '-')
    (hlower : c.toLower = c) : isTagChar c = true := by
  rcases hchar with hchar | rfl
  · simp only [isTagChar, Bool.or_eq_true]
    rcases Bool.or_eq_true_iff.mp hchar with hletter | hdigit
    · rcases Bool.or_eq_true_iff.mp hletter with hupper | hsmall
      · exact absurd hlower (toLower_ne_of_isUpper hupper)
      · exact .inl (.inl hsmall)
    · exact .inl (.inr hdigit)
  · rfl

/-- The tags of elements without attributes are made of the characters of tags. -/
theorem Bare.isTagChar (hbuilt : fragment.Built) (hbare : fragment.Bare container)
    (hbelow : fragment.Below container id) :
    ∀ c ∈ (fragment.tag id).toList, isTagChar c = true := by
  intro c hchar
  cases htag : fragment.tag? id with
  | none =>
      rw [Fragment.tag, htag] at hchar
      cases hchar
  | some tag =>
      obtain ⟨node, name, attributes, hnode, hkind⟩ :=
        exists_of_tag?_ne_none (htag ▸ Option.some_ne_none tag)
      have hlower := hbuilt.lowerAscii_tag (hkind ▸ kind_of_get hnode)
      refine isTagChar_of_lower (hbare.tags id hbelow c hchar) ?_
      rw [tag_of_get hnode hkind, ← hlower, lowerAscii, String.toList_ofList] at hchar
      obtain ⟨d, -, rfl⟩ := List.mem_map.mp hchar
      exact toLower_toLower d

end Fragment

section Harmless

variable {fragment : Fragment} {container id : Nat} {spelling : NodeId → TagSpelling}
  {rest : List Char}

/-- No node is taken for a closing tag that is not needed. -/
theorem harmless_nodeSpelled (hbuilt : fragment.Built) (hbare : fragment.Bare container)
    (hspells : fragment.Spells spelling container) (hbelow : fragment.Below container id)
    (depth : Nat) (parentTag : String) (hharmless : Harmless rest) :
    Harmless
      ((fragment.nodeSpelled spelling depth parentTag id).flatMap Spelled.source ++ rest) := by
  cases depth with
  | zero => exact hharmless
  | succ depth =>
      cases hnode : fragment.get? id with
      | none => simpa only [Fragment.nodeSpelled, hnode, List.flatMap_nil,
          List.nil_append] using hharmless
      | some node =>
          cases hkind : node.kind with
          | text content =>
              simp only [Fragment.nodeSpelled, hnode, hkind, List.flatMap_singleton]
              have hplain := hbare.texts id hbelow content (Fragment.content?_of_get hnode hkind)
              cases htext : content.toList with
              | nil => exact hharmless
              | cons c text =>
                  have hchar : c ≠ '<' := by
                    rintro rfl
                    exact hplain '<' (htext ▸ List.mem_cons_self) (by decide)
                  exact harmless_append (unclosing_of_head hchar) hharmless
          | comment content =>
              simp only [Fragment.nodeSpelled, hnode, hkind]
              exact harmless_of_second (by decide)
          | element tag attributes =>
              have hfits := hspells id hbelow (Fragment.tag?_ne_none_of_get hnode hkind)
              have htag := hbare.isTagChar hbuilt hbelow
              have hname : ∀ c ∈ (spelling id).name, c ≠ '/' := by
                rintro c hchar rfl
                exact absurd (htag _ (hfits.name ▸ List.mem_map_of_mem hchar)) (by decide)
              have hopening := harmless_of_opening hname hfits.blanks (spelling id).ending
              simp only [Fragment.nodeSpelled, hnode, hkind, List.flatMap_cons, List.append_assoc,
                List.cons_append]
              split
              · simp only [List.flatMap_singleton, List.append_assoc]
                exact hopening _
              · simp only [List.flatMap_cons, List.append_assoc]
                exact hopening _

theorem harmless_children (hbuilt : fragment.Built) (hbare : fragment.Bare container)
    (hspells : fragment.Spells spelling container) {children : List NodeId}
    (hbelow : ∀ child ∈ children, fragment.Below container child) (depth : Nat)
    (parentTag : String) (hharmless : Harmless rest) :
    Harmless ((children.flatMap (fragment.nodeSpelled spelling depth parentTag)).flatMap
      Spelled.source ++ rest) := by
  induction children with
  | nil => exact hharmless
  | cons child children ih =>
      rw [List.flatMap_cons, List.flatMap_append, List.append_assoc]
      exact harmless_nodeSpelled hbuilt hbare hspells (hbelow child List.mem_cons_self)
        depth parentTag (ih fun other hchild => hbelow other (List.mem_cons_of_mem child hchild))

end Harmless

namespace Mapper

variable {mapper : Mapper .checked} {container id : Nat} {spellings : NodeId → TagSpelling}
    {tag : String}
  {rest : List Char}

theorem reads_comment (mapper : Mapper .checked) (id : NodeId) (content : String)
    (rest : List Char) : mapper.Reads (mapper.comment id content)
      (Spelled.join ((commentPieces id content).map fun piece => ⟨piece, piece.text⟩)) rest := by
  have hstart := (mapper.reads_span (.node id) .commentStart "<!--".toList
    (content.toList ++ ("-->".toList ++ []) ++ rest) rfl).unled
  have htext := mapper.reads_span (.node id) .textValue content.toList
    ("-->".toList ++ [] ++ rest) String.length_toList.symm
  have hend := (mapper.reads_span (.node id) .commentEnd "-->".toList ([] ++ rest) rfl).unled
  exact hstart.andThen (htext.andThen (hend.andThen (mapper.reads_stay rest)))

/-- The children of an element, one after another. -/
theorem reads_children (hbuilt : mapper.fragment.Built) (hbare : mapper.fragment.Bare container)
    (hspells : mapper.fragment.Spells spellings container) {children : List NodeId}
    (hbelow : ∀ child ∈ children, mapper.fragment.Below container child) {depth : Nat}
    {parentTag : String}
    (ih : ∀ child ∈ children, ∀ rest, Harmless rest →
      mapper.Reads (mapper.node depth parentTag child)
        (Spelled.join (mapper.fragment.nodeSpelled spellings depth parentTag child)) rest)
    (hharmless : Harmless rest) :
    mapper.Reads (.all (children.map (mapper.node depth parentTag)))
      (Spelled.join (children.flatMap (mapper.fragment.nodeSpelled spellings depth parentTag)))
        rest := by
  rw [Spelled.join_flatMap]
  refine reads_all fun front child back heq => ih child (by simp [heq]) _ ?_
  rw [← Spelled.join_flatMap, Spelled.source_join]
  exact harmless_children hbuilt hbare hspells (fun other hchild =>
    hbelow other (by simp [heq, hchild])) depth parentTag hharmless

/-- What is between the tags of an element. -/
theorem reads_between (hbuilt : mapper.fragment.Built) (hbare : mapper.fragment.Bare container)
    (hspells : mapper.fragment.Spells spellings container) {children : List NodeId}
    (hbelow : ∀ child ∈ children, mapper.fragment.Below container child) {depth : Nat}
    (ih : ∀ child ∈ children, ∀ rest, Harmless rest → mapper.Reads (mapper.node depth tag child)
      (Spelled.join (mapper.fragment.nodeSpelled spellings depth tag child)) rest)
    (id : NodeId) (hharmless : Harmless rest) :
    mapper.Reads
      (if tag = "iframe" then .advance (mapper.fragment.innerHtml id).length
        else (mapper.mark id).andThen (.all (children.map (mapper.node depth tag))))
      (Spelled.join (if tag = "iframe" then
          [⟨.gap (mapper.fragment.innerHtml id), mapper.fragment.innerHtml id⟩]
        else ⟨.span (.node id) .replaceContents [], []⟩ ::
          children.flatMap (mapper.fragment.nodeSpelled spellings depth tag))) rest := by
  split
  · have hgap := mapper.reads_advance (mapper.fragment.innerHtml id) rest
    rw [← Passage.append_empty (.unled _ _)] at hgap
    exact hgap
  · have hmark := mapper.reads_emit (.node id) .replaceContents
      ((Spelled.join (children.flatMap (mapper.fragment.nodeSpelled spellings depth tag))).source ++
        rest)
    exact hmark.andThen (mapper.reads_children hbuilt hbare hspells hbelow ih hharmless)

/-- There is nothing between the tags of an element without children. -/
theorem join_between_of_childless {fragment : Fragment} {node : Node}
    (hnode : fragment.get? id = some node) (hnone : node.children = []) (depth : Nat) :
    Spelled.join (if tag = "iframe" then [⟨.gap (fragment.innerHtml id), fragment.innerHtml id⟩]
      else ⟨.span (.node id) .replaceContents [], []⟩ ::
        node.children.flatMap (fragment.nodeSpelled spellings depth tag)) = .empty := by
  have hempty : fragment.innerHtml id = [] := by
    rw [Fragment.innerHtml, Fragment.children_eq_of_get hnode, hnone, List.flatMap_nil]
  rw [hempty, hnone, List.flatMap_nil]
  split
  · exact Spelled.join_singleton _
  · exact Spelled.join_singleton _

/-- An element, however its tags were assigned. -/
theorem reads_element (hbuilt : mapper.fragment.Built)
    (hclosing : ∀ tag, mapper.closingTags tag = !isVoid tag)
    (hbare : mapper.fragment.Bare container) (hspells : mapper.fragment.Spells spellings container)
    (hbelow : mapper.fragment.Below container id) {node : Node} {attributes : List Attribute}
    (hnode : mapper.fragment.get? id = some node) (hkind : node.kind = .element tag attributes)
    {depth : Nat}
    (ih : ∀ child ∈ mapper.fragment.children id, ∀ rest, Harmless rest →
      mapper.Reads (mapper.node depth tag child)
        (Spelled.join (mapper.fragment.nodeSpelled spellings depth tag child)) rest)
    (hrest : Harmless rest) (parentTag : String) :
    mapper.Reads
      ((mapper.opening id tag []).andThen
        (if mapper.closingTags tag then
          .all [if tag = "iframe" then .advance (mapper.fragment.innerHtml id).length
            else (mapper.mark id).andThen (.all (node.children.map (mapper.node depth tag))),
            mapper.closing id tag]
        else if node.children.isEmpty then .stay else .mismatch .checked (.childrenOfUnclosed tag)))
      (Spelled.join (mapper.fragment.nodeSpelled spellings (depth + 1) parentTag id)) rest := by
  have helement := Fragment.tag?_ne_none_of_get hnode hkind
  have hchildren : ∀ child ∈ node.children, mapper.fragment.Below container child :=
    fun child hchild => .step hbelow helement (by rwa [Fragment.children_eq_of_get hnode])
  have hfits := hspells id hbelow helement
  have htag := hbare.isTagChar hbuilt hbelow
  have hvoids := hbare.voids id hbelow
  rw [Fragment.tag_of_get hnode hkind] at hfits htag hvoids
  rw [Fragment.children_eq_of_get hnode] at hfits hvoids ih
  simp only [Fragment.nodeSpelled, hnode, hkind, hclosing]
  cases hvoid : isVoid tag with
  | true =>
      have hopen : mapper.closingTags tag = false := by rw [hclosing, hvoid]; rfl
      have hread := mapper.reads_unclosed id hfits hopen htag (hrest tag hvoid htag)
      simp only [hvoids hvoid, List.isEmpty_nil, Bool.not_true, Bool.false_eq_true, if_false,
        if_true]
      have hall := hread.andThen (mapper.reads_stay rest)
      rw [Passage.append_assoc] at hall
      exact hall
  | false =>
      -- A tag that is not void is not ended by its opening tag alone.
      have hclosed : mapper.closingTags tag = true := by rw [hclosing, hvoid]; rfl
      simp only [Bool.not_false, Bool.false_eq_true, if_false, if_true]
      cases hending : (spellings id).ending with
      | plain =>
          rw [hfits.plain hending] at hvoid
          cases hvoid
      | slash =>
          have hharmless : Harmless ('>' :: rest) :=
            @harmless_append ['>'] rest (unclosing_of_head (by decide)) hrest
          have hbetween := mapper.reads_between hbuilt hbare hspells hchildren ih id hharmless
          have hinner := @join_between_of_childless id spellings tag mapper.fragment node hnode
            (hfits.slash hending) depth
          rw [hinner] at hbetween
          have hall := mapper.reads_slashed id hfits hclosed hending hbetween
          rw [Spelled.join_cons, Spelled.join_cons, Spelled.join_append, hinner,
            Spelled.join_singleton, Passage.empty_append]
          have hunled := Passage.unled_append ((spellings id).blanks ++ TagEnd.slash.opening) [] 1
            (closingTag tag).length
          rw [List.append_nil, ← length_closingTag] at hunled
          rw [hending, ← hunled, length_closingTag] at hall
          exact hall
      | closed name =>
          have hharmless : Harmless ((spellings id).ending.closing ++ rest) := by
            have hname := @harmless_of_name tag name rest hvoid htag (hfits.closing_name hending)
            rw [hending]
            simpa [TagEnd.closing] using hname
          have hbetween := mapper.reads_between hbuilt hbare hspells hchildren ih id hharmless
          have hall := mapper.reads_closed id hfits hclosed hending hbetween
          rw [hending] at hall
          rw [Spelled.join_cons, Spelled.join_cons, Spelled.join_append, Spelled.join_singleton]
          exact hall

/-- A node, however the tags in it were assigned. -/
theorem reads_node (hbuilt : mapper.fragment.Built)
    (hend : mapper.source.contentEnd = mapper.source.chars.length)
    (hclosing : ∀ tag, mapper.closingTags tag = !isVoid tag) (hignored : mapper.ignored = [])
    (hbare : mapper.fragment.Bare container) (hspells : mapper.fragment.Spells spellings container)
    (hproper : mapper.fragment.Proper id) {depth : Nat} (hdepth : mapper.fragment.size - id < depth)
    (hbelow : mapper.fragment.Below container id) (hharmless : Harmless rest) :
    mapper.Reads (mapper.node depth (mapper.fragment.parentTag id) id)
      (Spelled.join (mapper.fragment.nodeSpelled spellings depth (mapper.fragment.parentTag id) id))
        rest := by
  -- Along the tree downwards: the depth only has to reach as far as there are nodes.
  refine hbuilt.descend (motive := fun depth id => mapper.fragment.Below container id →
    ∀ rest, Harmless rest → mapper.Reads (mapper.node depth (mapper.fragment.parentTag id) id)
      (Spelled.join (mapper.fragment.nodeSpelled spellings depth (mapper.fragment.parentTag id) id))
        rest) ?_ hproper hdepth hbelow rest hharmless
  intro depth id hproper hdepth ih hbelow rest hharmless
  cases hnode : mapper.fragment.get? id with
  | none =>
      simp only [node, hignored, List.not_mem_nil, if_false, Fragment.nodeSpelled, hnode]
      exact mapper.reads_stay rest
  | some node =>
      cases hkind : node.kind with
      | text content =>
          simp only [Mapper.node, hignored, List.not_mem_nil, if_false, Fragment.nodeSpelled, hnode,
            hkind]
          rw [Spelled.join_singleton]
          exact mapper.reads_plain_text hend id _
            (hbare.texts id hbelow content (Fragment.content?_of_get hnode hkind))
      | comment content =>
          simp only [Mapper.node, hignored, List.not_mem_nil, if_false, Fragment.nodeSpelled, hnode,
            hkind]
          exact mapper.reads_comment id content rest
      | element tag attributes =>
          have hattributes := hbare.attributes id hbelow
          rw [Fragment.attributes_of_get hnode hkind] at hattributes
          subst hattributes
          have helement := Fragment.tag?_ne_none_of_get hnode hkind
          have hchildren : ∀ child ∈ mapper.fragment.children id, ∀ rest, Harmless rest →
              mapper.Reads (mapper.node depth tag child)
                (Spelled.join (mapper.fragment.nodeSpelled spellings depth tag child)) rest := by
            intro child hmem
            have hchild := (ih helement child hmem).2 (.step hbelow helement hmem)
            rwa [Fragment.parentTag_of_child hbuilt hmem, Fragment.tag_of_get hnode hkind] at hchild
          have hall := mapper.reads_element hbuilt hclosing hbare hspells hbelow hnode hkind
            hchildren hharmless (mapper.fragment.parentTag id)
          simp only [Mapper.node, hignored, List.not_mem_nil, if_false, hnode, hkind]
          exact hall

/-- The content of a container, however the tags in it were assigned. -/
theorem reads_content (hbuilt : mapper.fragment.Built)
    (hend : mapper.source.contentEnd = mapper.source.chars.length)
    (hclosing : ∀ tag, mapper.closingTags tag = !isVoid tag) (hignored : mapper.ignored = [])
    (hbare : mapper.fragment.Bare container) (hspells : mapper.fragment.Spells spellings container)
    (hcontainer : mapper.fragment.Proper container) :
    mapper.Reads (mapper.content container)
      (Spelled.join (mapper.fragment.contentSpelled spellings container)) [] := by
  have hchildren : ∀ child ∈ mapper.fragment.children container, ∀ rest, Harmless rest →
      mapper.Reads (mapper.node (mapper.fragment.size + 1) (mapper.fragment.tag container) child)
        (Spelled.join (mapper.fragment.nodeSpelled spellings (mapper.fragment.size + 1)
          (mapper.fragment.tag container) child)) rest := by
    intro child hmem rest hharmless
    obtain ⟨-, hproper⟩ := hbuilt.child_of_proper hcontainer hmem
    have hbound : mapper.fragment.size - child < mapper.fragment.size + 1 := by omega
    have hchild := mapper.reads_node hbuilt hend hclosing hignored hbare hspells hproper hbound
      (.child hmem) hharmless
    rwa [Fragment.parentTag_of_child hbuilt hmem] at hchild
  exact (mapper.reads_emit (.node container) .replaceContents _).andThen
    (mapper.reads_children hbuilt hbare hspells (fun child hmem => .child hmem) hchildren
      harmless_nil)

end Mapper

section Pieces

variable {fragment : Fragment} {container id : Nat} {spellings : NodeId → TagSpelling}

/-- The spelled pieces of a node are its pieces. -/
theorem map_piece_nodeSpelled (hbare : fragment.Bare container)
    (hbelow : fragment.Below container id) (depth : Nat) (parentTag : String) :
    (fragment.nodeSpelled spellings depth parentTag id).map Spelled.piece =
      fragment.nodePieces [] depth parentTag id := by
  induction depth generalizing parentTag id with
  | zero => rfl
  | succ depth ih =>
      cases hnode : fragment.get? id with
      | none => simp only [Fragment.nodeSpelled, Fragment.nodePieces, hnode, List.not_mem_nil,
          if_false, List.map_nil]
      | some node =>
          cases hkind : node.kind with
          | text content =>
              simp only [Fragment.nodeSpelled, Fragment.nodePieces, hnode, hkind, List.not_mem_nil,
                if_false, List.map_cons, List.map_nil]
          | comment content =>
              simp only [Fragment.nodeSpelled, Fragment.nodePieces, hnode, hkind, List.not_mem_nil,
                if_false, List.map_map, Function.comp_def, List.map_id']
          | element tag attributes =>
              have hattributes := hbare.attributes id hbelow
              rw [Fragment.attributes_of_get hnode hkind] at hattributes
              have hchildren : (node.children.flatMap
                  (fragment.nodeSpelled spellings depth tag)).map Spelled.piece =
                    node.children.flatMap (fragment.nodePieces [] depth tag) := by
                rw [List.map_flatMap]
                refine List.flatMap_congr fun child hchild => ih ?_ tag
                exact .step hbelow (Fragment.tag?_ne_none_of_get hnode hkind)
                  (by rwa [Fragment.children_eq_of_get hnode])
              simp only [Fragment.nodeSpelled, Fragment.nodePieces, hnode, hkind, List.not_mem_nil,
                if_false, hattributes, openingPieces, List.flatMap_nil, List.cons_append,
                List.nil_append, List.map_cons]
              split
              · rfl
              · rw [List.map_cons, List.map_append]
                split
                · rfl
                · rw [List.map_cons, hchildren]
                  rfl

theorem map_piece_contentSpelled (hbare : fragment.Bare container) :
    (fragment.contentSpelled spellings container).map Spelled.piece =
      fragment.contentPieces [] container := by
  rw [Fragment.contentSpelled, List.map_cons, List.map_flatMap, Fragment.contentPieces]
  refine congrArg _ (List.flatMap_congr fun child hchild => ?_)
  exact map_piece_nodeSpelled hbare (.child hchild) _ _

/-- A piece whose characters lead to what they were assigned as is as long as it. -/
def Spelled.Level (spelled : Spelled) : Prop :=
  spelled.led = true → spelled.source.length = spelled.piece.text.length

theorem Spelled.level_of_not_led {spelled : Spelled} (hled : spelled.led = false) :
    spelled.Level := by
  intro h
  rw [hled] at h
  cases h

theorem Spelled.Level.length_leads {spelled : Spelled} (hlevel : spelled.Level) :
    spelled.passage.leads.length = spelled.piece.text.length := by
  unfold passage
  split
  · rename_i hled
    rw [Passage.length_leads_same]
    exact hlevel hled
  · exact List.length_replicate

theorem level_closingTag {tag : String} {childless : Prop} {spelling : TagSpelling}
    (hfits : spelling.Fits tag childless) (target : Target) :
    Spelled.Level ⟨.span target .closingTag (closingTag tag), spelling.ending.closing⟩ := by
  intro hled
  cases hending : spelling.ending with
  | plain => rw [hending] at hled; cases hled
  | slash => rw [hending] at hled; cases hled
  | closed name =>
      have hname := hfits.length_closing_name hending
      rw [Piece.text, ← length_closingTag]
      simp only [TagEnd.closing, List.length_cons, List.length_append, List.length_nil, hname]
      omega

/-- The pieces of a node are level, however its tags were assigned. -/
theorem level_nodeSpelled (hbare : fragment.Bare container)
    (hspells : fragment.Spells spellings container) (hbelow : fragment.Below container id)
    (depth : Nat) (parentTag : String) :
    ∀ spelled ∈ fragment.nodeSpelled spellings depth parentTag id, spelled.Level := by
  induction depth generalizing parentTag id with
  | zero =>
      intro spelled hmem
      cases hmem
  | succ depth ih =>
      intro spelled hmem
      cases hnode : fragment.get? id with
      | none =>
          simp only [Fragment.nodeSpelled, hnode] at hmem
          cases hmem
      | some node =>
          cases hkind : node.kind with
          | text content =>
              simp only [Fragment.nodeSpelled, hnode, hkind] at hmem
              rw [List.mem_singleton.mp hmem]
              intro _
              have hplain := hbare.texts id hbelow content (Fragment.content?_of_get hnode hkind)
              exact congrArg List.length (escapeText_of_plain parentTag hplain).symm
          | comment content =>
              simp only [Fragment.nodeSpelled, hnode, hkind] at hmem
              obtain ⟨piece, -, rfl⟩ := List.mem_map.mp hmem
              exact fun _ => rfl
          | element tag attributes =>
              have helement := Fragment.tag?_ne_none_of_get hnode hkind
              have hfits := hspells id hbelow helement
              rw [Fragment.tag_of_get hnode hkind] at hfits
              have hend : ∀ source, Spelled.Level ⟨.span (.node id) .openingTagEnd ['>'], source⟩ :=
                fun _ => Spelled.level_of_not_led rfl
              simp only [Fragment.nodeSpelled, hnode, hkind] at hmem
              rcases List.mem_cons.mp hmem with rfl | hmem
              · intro _
                rw [Piece.text, List.length_cons, List.length_cons, hfits.length_name,
                  String.length_toList]
              · split at hmem
                · rw [List.mem_singleton.mp hmem]
                  exact hend _
                · rcases List.mem_cons.mp hmem with rfl | hmem
                  · exact hend _
                  · rcases List.mem_append.mp hmem with hmem | hmem
                    · split at hmem
                      · rw [List.mem_singleton.mp hmem]
                        exact Spelled.level_of_not_led rfl
                      · rcases List.mem_cons.mp hmem with rfl | hmem
                        · exact Spelled.level_of_not_led rfl
                        · obtain ⟨child, hchild, hmem⟩ := List.mem_flatMap.mp hmem
                          rw [← Fragment.children_eq_of_get hnode] at hchild
                          exact ih (.step hbelow helement hchild) tag spelled hmem
                    · rw [List.mem_singleton.mp hmem]
                      exact level_closingTag hfits _

theorem level_contentSpelled (hbare : fragment.Bare container)
    (hspells : fragment.Spells spellings container) :
    ∀ spelled ∈ fragment.contentSpelled spellings container, spelled.Level := by
  intro spelled hmem
  rcases List.mem_cons.mp hmem with rfl | hmem
  · exact Spelled.level_of_not_led rfl
  · obtain ⟨child, hchild, hmem⟩ := List.mem_flatMap.mp hmem
    exact level_nodeSpelled hbare hspells (.child hchild) _ _ spelled hmem

end Pieces

/-- Where a character of one piece among others leads. -/
theorem Spelled.leads_join {front back : List Spelled} {spelled : Spelled}
    (hlevel : ∀ other ∈ front ++ spelled :: back, other.Level) (hled : spelled.led = true)
    {relative : Nat} (hlt : relative < spelled.piece.text.length) :
    (join (front ++ spelled :: back)).leads[
      (front.flatMap fun other => other.piece.text).length + relative]? =
        some (some ((front.flatMap source).length + relative)) := by
  have hself : spelled.passage = .same spelled.source := if_pos hled
  have hlead : spelled.passage.leads[relative]? = some (some relative) := by
    rw [hself]
    refine Passage.leads_same ?_
    rwa [hlevel spelled (by simp) hled]
  have hfront : ((front.map passage).flatMap Passage.leads).length =
      (front.flatMap fun other => other.piece.text).length :=
    Passage.length_leads_map fun other hmem => (hlevel other (by simp [hmem])).length_leads
  have hjoined := Passage.leads_join (front.map passage) (back.map passage) hlead
  rwa [hfront, ← Passage.source_join, ← List.map_cons, ← List.map_append,
    show (Passage.join (front.map passage)).source = _ from source_join front] at hjoined

/-- However the tags of a document were spelled, it is undone exactly: nothing is reported, and
    every character at the beginning of an opening tag, of a text outside of inline frames, and of a
    closing tag that was assigned leads to the character that it was assigned as. -/
theorem map_tags_undone {fragment : Fragment} {container : NodeId} {closingTags : ClosingTags}
    (hbuilt : fragment.Built) (hproper : fragment.Proper container)
    (hsize : (fragment.innerHtml container).length < lengthLimit)
    (hremembers : closingTags.Remembers .byVoidTags) (hbare : fragment.Bare container)
    {spelling : NodeId → TagSpelling} (hspells : fragment.Spells spelling container)
    {assigned : Operand RecordId}
    (hassigned : assignedText assigned =
      String.ofList ((fragment.contentSpelled spelling container).flatMap Spelled.source))
    (hlength : (assignedText assigned).length < lengthLimit) :
    let report := map closingTags fragment container assigned {}
    report.diagnostics = [] ∧
    (fragment.contentSpelled spelling container).map Spelled.piece =
      fragment.contentPieces [] container ∧
    ∀ front spelled back, fragment.contentSpelled spelling container = front ++ spelled :: back →
      spelled.led = true → spelled.source.length = spelled.piece.text.length ∧
        ∀ relative < spelled.piece.text.length,
          ((Snapshot.capture fragment container report.origins).originAt
            ((front.flatMap fun other => other.piece.text).length + relative)).map
              ResolvedOrigin.charIndex =
                some ((front.flatMap Spelled.source).length + relative) := by
  intro report
  let mapper := Mapper.ofAssignment .checked closingTags fragment container assigned {}
  rw [← Spelled.source_join] at hassigned
  rw [hassigned, String.length_ofList] at hlength
  have hsource : mapper.source = _ :=
    Mapper.contentEnd_ofAssignment closingTags fragment container hassigned hlength
  have hend : mapper.source.contentEnd = mapper.source.chars.length := by rw [hsource]
  have hreads : mapper.Reads (mapper.content container)
      (Spelled.join (fragment.contentSpelled spelling container)) [] :=
    mapper.reads_content hbuilt hend hremembers.eq_not_isVoid rfl hbare hspells hproper
  obtain ⟨hclean, hleads⟩ := map_of_reads hbuilt hproper hsize hremembers hassigned hlength hreads
  have hlevel := level_contentSpelled hbare hspells
  refine ⟨hclean, map_piece_contentSpelled hbare, fun front one back heq hled => ?_⟩
  rw [heq] at hlevel
  refine ⟨hlevel one (by simp) hled, fun relative hlt => hleads _ _ ?_⟩
  rw [heq]
  exact Spelled.leads_join hlevel hled hlt

/-- A paragraph with a line break, and an element without content. -/
def paragraph : Fragment :=
  (Fragment.new "div").appendElement 0 "p" []
    |>.appendText 1 "a"
    |>.appendElement 1 "br" []
    |>.appendElement 0 "i" []

theorem paragraph_built : paragraph.Built :=
  .element (.element (.text (.element (.new _) _ _ _) _ _) _ _ _) _ _ _

theorem paragraph_bare : paragraph.Bare 0 where
  tags id hbelow := by
    have hall : ∀ id < 5,
        ((paragraph.tag id).toList.all fun c => c.isAlphanum || c = '-') = true := by
      decide +kernel
    simpa using hall id (paragraph_built.lt_of_below hbelow)
  attributes id hbelow := by
    have hall : ∀ id < 5, paragraph.attributes id = [] := by decide +kernel
    exact hall id (paragraph_built.lt_of_below hbelow)
  voids id hbelow := by
    have hall : ∀ id < 5, isVoid (paragraph.tag id) = true → paragraph.children id = [] := by
      decide +kernel
    exact hall id (paragraph_built.lt_of_below hbelow)
  texts id hbelow content hcontent := by
    have hall : ∀ id < 5, ∀ content ∈ paragraph.content? id, content = "a" := by decide +kernel
    rw [hall id (paragraph_built.lt_of_below hbelow) content hcontent]
    simp

/-- In capitals, with blanks, and with slashes. -/
def paragraphSpelling : NodeId → TagSpelling
  | 1 => ⟨['P'], [' '], .closed ['p']⟩
  | 3 => ⟨['B', 'R'], [], .slash⟩
  | 4 => ⟨['i'], [' '], .slash⟩
  | _ => ⟨"div".toList, [], .closed "div".toList⟩

theorem map_tags_undone_paragraph :
    let report := map ClosingTags.byVoidTags.folded paragraph 0
      { value := .str "<P >a<BR/></p><i />" } {}
    let leads index := ((Snapshot.capture paragraph 0 report.origins).originAt index).map
      ResolvedOrigin.charIndex
    paragraph.innerHtml 0 = "<p>a<br></p><i></i>".toList ∧ report.diagnostics = [] ∧
    leads 3 = some 4 ∧ leads 6 = some 7 ∧ leads 8 = some 10 ∧ leads 13 = some 15 := by
  intro report leads
  have hspells : paragraph.Spells paragraphSpelling 0 := by
    intro id hbelow
    have hall : ∀ id < 5, paragraph.tag? id ≠ none →
        (paragraphSpelling id).Fits (paragraph.tag id) (paragraph.children id = []) := by
      decide +kernel
    exact hall id (paragraph_built.lt_of_below hbelow)
  obtain ⟨hclean, -, hleads⟩ := @map_tags_undone paragraph 0 _ paragraph_built (by decide)
    (by decide) (ClosingTags.folded_remembers _) paragraph_bare paragraphSpelling hspells
    { value := .str "<P >a<BR/></p><i />" } (by decide +kernel) (by decide)
  let spelled := paragraph.contentSpelled paragraphSpelling 0
  have hpart : ∀ count one, spelled[count]? = some one →
      spelled = spelled.take count ++ one :: spelled.drop (count + 1) := by
    intro count one hone
    obtain ⟨hlt, rfl⟩ := List.getElem?_eq_some_iff.mp hone
    rw [← List.drop_eq_getElem_cons hlt, List.take_append_drop]
  refine ⟨by decide +kernel, hclean, ?_, ?_, ?_, ?_⟩
  · exact (hleads _ _ _ (hpart 4 _ rfl) rfl).2 0 (by decide)
  · exact (hleads _ _ _ (hpart 5 _ rfl) rfl).2 2 (by decide)
  · exact (hleads _ _ _ (hpart 7 _ rfl) rfl).2 0 (by decide)
  · exact (hleads _ _ _ (hpart 8 _ rfl) rfl).2 1 (by decide)

end Provenance.Markup
