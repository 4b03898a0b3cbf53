import Provenance.Markup.Origin
import Provenance.Proofs.Markup.Tree

/-! # The layout of markup

The written form of the content of a container, cut into pieces. Most pieces are spans, which
are named by a target and an action. The others are gaps, which no origin stands for: what is
inside inline frames, and nodes that the assignment did not produce. The pieces are laid out
by a recursion of their own; they make up the written form, and every one of them is what its
name says.
-/

namespace Provenance.Markup

/-- A piece of written markup. -/
inductive Piece where
  | span (target : Target) (action : Action) (text : List Char)
  | gap (text : List Char)
  deriving DecidableEq, Repr

namespace Piece

/-- The text of a piece. -/
def text : Piece → List Char
  | span _ _ text => text
  | gap text => text

/-- The name and the text of a span. -/
def span? : Piece → Option (Target × Action × List Char)
  | span target action text => some (target, action, text)
  | gap _ => none

/-- The text of several pieces. -/
def written (pieces : List Piece) : List Char := pieces.flatMap text

/-- Whether the character of an index belongs to a gap. -/
def gapAt : List Piece → (index : Nat) → Bool
  | [], _ => false
  | span _ _ text :: rest, index => text.length ≤ index && gapAt rest (index - text.length)
  | gap text :: rest, index => index < text.length || gapAt rest (index - text.length)

@[simp] theorem written_nil : written [] = [] := rfl

@[simp] theorem written_cons (piece : Piece) (rest : List Piece) :
    written (piece :: rest) = piece.text ++ written rest := rfl

@[simp] theorem written_append (front back : List Piece) :
    written (front ++ back) = written front ++ written back := List.flatMap_append

theorem written_flatMap {α : Type} (items : List α) (pieces : α → List Piece) :
    written (items.flatMap pieces) = items.flatMap fun item => written (pieces item) :=
  List.flatMap_assoc

end Piece

/-- The pieces of an attribute. -/
def attributePieces (id : NodeId) (attr : Attribute) : List Piece :=
  [.span (.attribute id attr.name) .attributeName (' ' :: attr.name.toList),
    .span (.attribute id attr.name) .attributeValue
      ('=' :: '"' :: escapeAttribute attr.value.toList ++ ['"'])]

/-- The pieces of an opening tag. -/
def openingPieces (id : NodeId) (tag : String) (attributes : List Attribute) : List Piece :=
  .span (.node id) .openingTagStart ('<' :: tag.toList) ::
    attributes.flatMap (attributePieces id) ++ [.span (.node id) .openingTagEnd ['>']]

/-- The pieces of a comment. -/
def commentPieces (id : NodeId) (content : String) : List Piece :=
  [.span (.node id) .commentStart "<!--".toList, .span (.node id) .textValue content.toList,
    .span (.node id) .commentEnd "-->".toList]

namespace Fragment

/-- The pieces of a node inside an element of the given tag, down to `depth` levels. -/
def nodePieces (fragment : Fragment) (ignored : List NodeId) :
    (depth : Nat) → (parentTag : String) → NodeId → List Piece
  | 0, _, _ => []
  | depth + 1, parentTag, id =>
    if id ∈ ignored then [.gap (fragment.outerHtml id)]
    else
      match fragment.get? id with
      | none => []
      | some node =>
        match node.kind with
        | .text content => [.span (.node id) .textValue (escapeText parentTag content.toList)]
        | .comment content => commentPieces id content
        | .element tag attributes =>
          openingPieces id tag attributes ++
            if isVoid tag then []
            else
              (if tag = "iframe" then [.gap (fragment.innerHtml id)]
                else .span (.node id) .replaceContents [] ::
                  node.children.flatMap (fragment.nodePieces ignored depth tag)) ++
                [.span (.node id) .closingTag (closingTag tag)]

/-- The pieces of the content of a container. -/
def contentPieces (fragment : Fragment) (ignored : List NodeId) (container : NodeId) :
    List Piece :=
  .span (.node container) .replaceContents [] ::
    (fragment.children container).flatMap
      (fragment.nodePieces ignored (fragment.size + 1) (fragment.tag container))

/-- The text that a target and an action name. -/
inductive Names (fragment : Fragment) : Target → Action → List Char → Prop
  | mark (id : NodeId) : Names fragment (.node id) .replaceContents []
  | openingTagStart {id : NodeId} {tag : String} {attributes : List Attribute}
      (hkind : fragment.kind? id = some (.element tag attributes)) :
      Names fragment (.node id) .openingTagStart ('<' :: tag.toList)
  | attributeName {id : NodeId} {tag : String} {attributes : List Attribute} {attr : Attribute}
      (hkind : fragment.kind? id = some (.element tag attributes)) (hattr : attr ∈ attributes) :
      Names fragment (.attribute id attr.name) .attributeName (' ' :: attr.name.toList)
  | attributeValue {id : NodeId} {tag : String} {attributes : List Attribute} {attr : Attribute}
      (hkind : fragment.kind? id = some (.element tag attributes)) (hattr : attr ∈ attributes) :
      Names fragment (.attribute id attr.name) .attributeValue
        ('=' :: '"' :: escapeAttribute attr.value.toList ++ ['"'])
  | openingTagEnd {id : NodeId} {tag : String} {attributes : List Attribute}
      (hkind : fragment.kind? id = some (.element tag attributes)) :
      Names fragment (.node id) .openingTagEnd ['>']
  | closingTag {id : NodeId} {tag : String} {attributes : List Attribute}
      (hkind : fragment.kind? id = some (.element tag attributes)) :
      Names fragment (.node id) .closingTag (closingTag tag)
  | text {id : NodeId} {content : String} (hkind : fragment.kind? id = some (.text content)) :
      Names fragment (.node id) .textValue (escapeText (fragment.parentTag id) content.toList)
  | commentStart {id : NodeId} {content : String}
      (hkind : fragment.kind? id = some (.comment content)) :
      Names fragment (.node id) .commentStart "<!--".toList
  | commentText {id : NodeId} {content : String}
      (hkind : fragment.kind? id = some (.comment content)) :
      Names fragment (.node id) .textValue content.toList
  | commentEnd {id : NodeId} {content : String}
      (hkind : fragment.kind? id = some (.comment content)) :
      Names fragment (.node id) .commentEnd "-->".toList

/-- Whether a piece is what it should be: a span what its name says, and a gap the content of
    an inline frame or an ignored node. -/
def Explains (fragment : Fragment) (ignored : List NodeId) (container : NodeId) : Piece → Prop
  | .span target action text => fragment.Names target action text
  | .gap text =>
    (∃ id ∈ ignored, fragment.Below container id ∧ text = fragment.outerHtml id) ∨
      ∃ id, fragment.Below container id ∧ fragment.tag? id = some "iframe" ∧
        text = fragment.innerHtml id

variable {fragment : Fragment} {ignored : List NodeId} {container id child : Nat}

theorem written_openingPieces (id : NodeId) (tag : String) (attributes : List Attribute) :
    Piece.written (openingPieces id tag attributes) = openingTag tag attributes := by
  have hattributes : (attributes.flatMap fun attr => Piece.written (attributePieces id attr)) =
      attributes.flatMap attributeHtml := by
    congr 1
    funext attr
    simp [attributePieces, attributeHtml, Piece.text]
  simp [openingPieces, openingTag, Piece.text, Piece.written_flatMap, hattributes]

/-- The pieces of a node make up its written form. -/
theorem written_nodePieces (ignored : List NodeId) (hbuilt : fragment.Built)
    (hproper : fragment.Proper id) {depth : Nat} (hdepth : fragment.size - id < depth) :
    Piece.written (fragment.nodePieces ignored depth (fragment.parentTag id) id) =
      fragment.nodeHtml depth (fragment.parentTag id) id := by
  refine hbuilt.descend (motive := fun depth id =>
    Piece.written (fragment.nodePieces ignored depth (fragment.parentTag id) id) =
      fragment.nodeHtml depth (fragment.parentTag id) id) ?_ hproper hdepth
  intro depth id hproper hdepth ih
  simp only [nodePieces]
  split
  · simp [Piece.text, outerHtml_of_depth hbuilt hproper hdepth]
  · cases hnode : fragment.get? id with
    | none => simp [nodeHtml, hnode]
    | some node =>
        cases hkind : node.kind with
        | text content => simp [nodeHtml, hnode, hkind, Piece.text]
        | comment content => simp [nodeHtml, hnode, hkind, Piece.text, commentPieces]
        | element tag attributes =>
            have hinner := innerHtml_of_element hbuilt hproper hdepth hnode hkind
            have hcontent : Piece.written (node.children.flatMap
                (fragment.nodePieces ignored depth tag)) = fragment.innerHtml id := by
              rw [← hinner, Piece.written_flatMap]
              refine List.flatMap_congr fun child hmem => ?_
              rw [← children_eq_of_get hnode] at hmem
              have hchild := (ih (tag?_ne_none_of_get hnode hkind) child hmem).2
              rwa [parentTag_of_child hbuilt hmem, tag_of_get hnode hkind] at hchild
            simp only [nodeHtml, hnode, hkind, Piece.written_append, written_openingPieces, hinner]
            by_cases hvoid : isVoid tag = true
            · simp [hvoid]
            · rw [if_neg hvoid, if_neg hvoid]
              by_cases hframe : tag = "iframe"
              · simp only [if_pos hframe]
                simp [Piece.text]
              · simp only [if_neg hframe]
                simp [Piece.text, hcontent]

/-- The pieces of the content of a container make up its written form. -/
theorem written_contentPieces (ignored : List NodeId) (hbuilt : fragment.Built)
    (hcontainer : fragment.Proper id) :
    Piece.written (fragment.contentPieces ignored id) = fragment.innerHtml id := by
  simp only [contentPieces, Piece.written_cons, Piece.text, List.nil_append,
    Piece.written_flatMap, innerHtml]
  refine List.flatMap_congr fun child hmem => ?_
  obtain ⟨-, hproper⟩ := hbuilt.child_of_proper hcontainer hmem
  have hbound : fragment.size - child < fragment.size + 1 := by omega
  have hchild := written_nodePieces ignored hbuilt hproper hbound
  rwa [parentTag_of_child hbuilt hmem] at hchild

theorem explains_attributePieces {tag : String} {attributes : List Attribute} {attr : Attribute}
    (hkind : fragment.kind? id = some (.element tag attributes)) (hattr : attr ∈ attributes) :
    ∀ piece ∈ attributePieces id attr, fragment.Explains ignored container piece := by
  intro piece hpiece
  rcases List.mem_pair.mp hpiece with rfl | rfl
  · exact .attributeName hkind hattr
  · exact .attributeValue hkind hattr

theorem explains_openingPieces {tag : String} {attributes : List Attribute}
    (hkind : fragment.kind? id = some (.element tag attributes)) :
    ∀ piece ∈ openingPieces id tag attributes, fragment.Explains ignored container piece := by
  intro piece hpiece
  simp only [openingPieces, List.cons_append, List.mem_cons, List.mem_append,
    List.mem_flatMap, List.not_mem_nil, or_false] at hpiece
  rcases hpiece with rfl | ⟨attr, hattr, hpiece⟩ | rfl
  · exact .openingTagStart hkind
  · exact explains_attributePieces hkind hattr piece hpiece
  · exact .openingTagEnd hkind

theorem explains_commentPieces {content : String}
    (hkind : fragment.kind? id = some (.comment content)) :
    ∀ piece ∈ commentPieces id content, fragment.Explains ignored container piece := by
  intro piece hpiece
  simp only [commentPieces, List.mem_cons, List.not_mem_nil, or_false] at hpiece
  rcases hpiece with rfl | rfl | rfl
  · exact .commentStart hkind
  · exact .commentText hkind
  · exact .commentEnd hkind

/-- Every piece of a node is what its name says. -/
theorem explains_nodePieces (ignored : List NodeId) (hbuilt : fragment.Built)
    (hproper : fragment.Proper id) {depth : Nat} (hdepth : fragment.size - id < depth)
    (hbelow : fragment.Below container id) :
    ∀ piece ∈ fragment.nodePieces ignored depth (fragment.parentTag id) id,
      fragment.Explains ignored container piece := by
  refine hbuilt.descend (motive := fun depth id => fragment.Below container id →
    ∀ piece ∈ fragment.nodePieces ignored depth (fragment.parentTag id) id,
      fragment.Explains ignored container piece) ?_ hproper hdepth hbelow
  intro depth id hproper hdepth ih hbelow piece hpiece
  simp only [nodePieces] at hpiece
  split at hpiece
  · rename_i hignored
    rw [List.mem_singleton.mp hpiece]
    exact .inl ⟨id, hignored, hbelow, rfl⟩
  · cases hnode : fragment.get? id with
    | none => simp [hnode] at hpiece
    | some node =>
        have hkind := kind_of_get hnode
        cases hkind' : node.kind with
        | text content =>
            rw [hkind'] at hkind
            simp only [hnode, hkind', List.mem_singleton] at hpiece
            rw [hpiece]
            exact .text hkind
        | comment content =>
            rw [hkind'] at hkind
            simp only [hnode, hkind'] at hpiece
            exact explains_commentPieces hkind piece hpiece
        | element tag attributes =>
            have htag := tag?_of_get hnode hkind'
            rw [hkind'] at hkind
            simp only [hnode, hkind', List.mem_append] at hpiece
            rcases hpiece with hpiece | hpiece
            · exact explains_openingPieces hkind piece hpiece
            · split at hpiece
              · cases hpiece
              · rcases List.mem_append.mp hpiece with hpiece | hpiece
                · split at hpiece
                  · rename_i hframe
                    rw [List.mem_singleton.mp hpiece]
                    exact .inr ⟨id, hbelow, by rw [htag, hframe], rfl⟩
                  · rcases List.mem_cons.mp hpiece with rfl | hpiece
                    · exact .mark id
                    · obtain ⟨child, hchild, hpiece⟩ := List.mem_flatMap.mp hpiece
                      rw [← children_eq_of_get hnode] at hchild
                      have helement := tag?_ne_none_of_get hnode hkind'
                      refine (ih helement child hchild).2 (.step hbelow helement hchild) piece ?_
                      rwa [parentTag_of_child hbuilt hchild, tag_of_get hnode hkind']
                · rw [List.mem_singleton.mp hpiece]
                  exact .closingTag hkind

theorem explains_contentPieces (ignored : List NodeId) (hbuilt : fragment.Built)
    (hcontainer : fragment.Proper container) :
    ∀ piece ∈ fragment.contentPieces ignored container,
      fragment.Explains ignored container piece := by
  intro piece hpiece
  rcases List.mem_cons.mp hpiece with rfl | hpiece
  · exact .mark container
  · obtain ⟨child, hchild, hpiece⟩ := List.mem_flatMap.mp hpiece
    obtain ⟨-, hproper⟩ := hbuilt.child_of_proper hcontainer hchild
    rw [← parentTag_of_child hbuilt hchild] at hpiece
    exact explains_nodePieces ignored hbuilt hproper (by omega) (.child hchild) piece hpiece

end Fragment

/-- A span at its place in written markup. -/
structure Placed where
  target : Target
  action : Action
  start : Nat
  text : List Char
  deriving DecidableEq, Repr

namespace Placed

/-- The index after the last character of the span. -/
def stop (placed : Placed) : Nat := placed.start + placed.text.length

/-- The spans among some pieces that are written from a place on. -/
def spans : (start : Nat) → List Piece → List Placed
  | _, [] => []
  | start, .span target action text :: rest =>
    ⟨target, action, start, text⟩ :: spans (start + text.length) rest
  | start, .gap text :: rest => spans (start + text.length) rest

theorem spans_append (start : Nat) (front back : List Piece) :
    spans start (front ++ back) =
      spans start front ++ spans (start + (Piece.written front).length) back := by
  induction front generalizing start with
  | nil => simp [spans]
  | cons piece front ih =>
      cases piece with
      | span target action text => simp [spans, ih, Piece.text, Nat.add_assoc]
      | gap text => simp [spans, ih, Piece.text, Nat.add_assoc]

theorem bounds_of_mem {start : Nat} {pieces : List Piece} {placed : Placed}
    (hmem : placed ∈ spans start pieces) :
    start ≤ placed.start ∧ placed.stop ≤ start + (Piece.written pieces).length := by
  induction pieces generalizing start with
  | nil => cases hmem
  | cons piece pieces ih =>
      rw [Piece.written_cons, List.length_append]
      cases piece with
      | span target action text =>
          rcases List.mem_cons.mp hmem with rfl | hmem
          · exact ⟨Nat.le_refl start, by simp only [stop, Piece.text]; omega⟩
          · obtain ⟨hstart, hstop⟩ := ih hmem
            simp only [Piece.text]
            exact ⟨by omega, by omega⟩
      | gap text =>
          obtain ⟨hstart, hstop⟩ := ih hmem
          simp only [Piece.text]
          exact ⟨by omega, by omega⟩

theorem piece_of_mem {start : Nat} {pieces : List Piece} {placed : Placed}
    (hmem : placed ∈ spans start pieces) :
    .span placed.target placed.action placed.text ∈ pieces := by
  induction pieces generalizing start with
  | nil => cases hmem
  | cons piece pieces ih =>
      cases piece with
      | span target action text =>
          rcases List.mem_cons.mp hmem with rfl | hmem
          · exact List.mem_cons_self
          · exact List.mem_cons_of_mem _ (ih hmem)
      | gap text => exact List.mem_cons_of_mem _ (ih hmem)

/-- The spans are in order, and none reaches into the next. -/
theorem spans_pairwise (start : Nat) (pieces : List Piece) :
    (spans start pieces).Pairwise fun a b => a.stop ≤ b.start := by
  induction pieces generalizing start with
  | nil => exact .nil
  | cons piece pieces ih =>
      cases piece with
      | span target action text => exact .cons (fun _ hmem => (bounds_of_mem hmem).1) (ih _)
      | gap text => exact ih _

theorem text_of_mem_from {start : Nat} {before : List Char} {pieces : List Piece} {placed : Placed}
    (hstart : start = before.length) (hmem : placed ∈ spans start pieces) :
    ((before ++ Piece.written pieces).drop placed.start).take placed.text.length =
      placed.text := by
  induction pieces generalizing start before with
  | nil => cases hmem
  | cons piece pieces ih =>
      have hassoc : before ++ Piece.written (piece :: pieces) =
          (before ++ piece.text) ++ Piece.written pieces := by simp
      have hlength : start + piece.text.length = (before ++ piece.text).length := by
        rw [List.length_append, hstart]
      cases piece with
      | span target action text =>
          rcases List.mem_cons.mp hmem with rfl | hmem
          · simp [hstart, Piece.text]
          · rw [hassoc]
            exact ih hlength hmem
      | gap text =>
          rw [hassoc]
          exact ih hlength hmem

/-- What is written at the place of a span is its text. -/
theorem text_of_mem {pieces : List Piece} {placed : Placed} (hmem : placed ∈ spans 0 pieces) :
    ((Piece.written pieces).drop placed.start).take placed.text.length = placed.text := by
  have hnil : 0 = ([] : List Char).length := rfl
  simpa using text_of_mem_from hnil hmem

/-- A character that no span covers belongs to a gap, and the other way round. -/
theorem covered_iff {start index : Nat} {pieces : List Piece} (hle : start ≤ index)
    (hlt : index < start + (Piece.written pieces).length) :
    (∃ placed ∈ spans start pieces, placed.start ≤ index ∧ index < placed.stop) ↔
      Piece.gapAt pieces (index - start) = false := by
  induction pieces generalizing start with
  | nil => simp at hlt; omega
  | cons piece pieces ih =>
      rw [Piece.written_cons, List.length_append, ← Nat.add_assoc] at hlt
      have hsub : index - start - piece.text.length = index - (start + piece.text.length) := by
        omega
      by_cases hin : index < start + piece.text.length
      · cases piece with
        | span target action text =>
            simp only [Piece.text] at hin
            have hgap : ¬ text.length ≤ index - start := by omega
            simp only [spans, Piece.gapAt, hgap, decide_false, Bool.false_and, iff_true]
            exact ⟨_, List.mem_cons_self, hle, hin⟩
        | gap text =>
            simp only [Piece.text] at hin
            have hgap : index - start < text.length := by omega
            simp only [spans, Piece.gapAt, hgap, decide_true, Bool.true_or, Bool.true_eq_false,
              iff_false, not_exists, not_and]
            intro placed hmem hfrom
            have hstart := (bounds_of_mem hmem).1
            omega
      · have hrest := @ih (start + piece.text.length) (by omega) hlt
        rw [← hsub] at hrest
        cases piece with
        | span target action text =>
            simp only [Piece.text] at hin hrest
            have hgap : text.length ≤ index - start := by omega
            simp only [spans, Piece.gapAt, hgap, decide_true, Bool.true_and, ← hrest,
              List.exists_mem_cons_iff, stop, or_iff_right_iff_imp, and_imp]
            intro _ hstop
            omega
        | gap text =>
            simp only [Piece.text] at hin hrest
            have hgap : ¬ index - start < text.length := by omega
            simpa only [spans, Piece.gapAt, hgap, decide_false, Bool.false_or] using hrest

theorem map_span? (start : Nat) (pieces : List Piece) :
    (spans start pieces).map (fun placed => (placed.target, placed.action, placed.text)) =
      pieces.filterMap Piece.span? := by
  induction pieces generalizing start with
  | nil => rfl
  | cons piece pieces ih =>
      cases piece with
      | span target action text => simp [spans, Piece.span?, ih]
      | gap text => simp [spans, Piece.span?, ih, List.filterMap_cons]

end Placed

end Provenance.Markup
