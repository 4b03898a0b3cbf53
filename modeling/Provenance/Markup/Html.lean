import Provenance.Markup.Escape
import Provenance.Markup.Fragment

/-! # Serialized markup

The written form of the nodes of a fragment. Nodes link to each other by number, so the
recursion is bounded by the number of nodes: no path through a tree is longer.
-/

namespace Provenance.Markup

/-- The written form of an attribute, with the space before it. -/
def attributeHtml (attr : Attribute) : List Char :=
  ' ' :: attr.name.toList ++ '=' :: '"' :: escapeAttribute attr.value.toList ++ ['"']

/-- The written form of an opening tag. -/
def openingTag (tag : String) (attributes : List Attribute) : List Char :=
  '<' :: tag.toList ++ attributes.flatMap attributeHtml ++ ['>']

/-- The written form of a closing tag. -/
def closingTag (tag : String) : List Char := '<' :: '/' :: tag.toList ++ ['>']

theorem length_marked (mark : Char) (name : String) :
    1 + name.length = (mark :: name.toList).length := by
  rw [List.length_cons, String.length_toList, Nat.add_comm]

theorem length_closingTag (tag : String) : 3 + tag.length = (closingTag tag).length := by
  simp only [closingTag, List.length_append, List.length_cons, List.length_nil,
    String.length_toList]
  omega

namespace Fragment

/-- The written form of a node inside an element of the given tag, down to `depth` levels. -/
def nodeHtml (fragment : Fragment) : (depth : Nat) → (parentTag : String) → NodeId → List Char
  | 0, _, _ => []
  | depth + 1, parentTag, id =>
    match fragment.get? id with
    | none => []
    | some node =>
      match node.kind with
      | .text content => escapeText parentTag content.toList
      | .comment content => "<!--".toList ++ content.toList ++ "-->".toList
      | .element tag attributes =>
        openingTag tag attributes ++
          if isVoid tag then []
          else node.children.flatMap (fragment.nodeHtml depth tag) ++ closingTag tag

/-- The written form of the children of a node. -/
def innerHtml (fragment : Fragment) (id : NodeId) : List Char :=
  (fragment.children id).flatMap (fragment.nodeHtml (fragment.size + 1) (fragment.tag id))

/-- The written form of a node, as it stands inside its parent. -/
def outerHtml (fragment : Fragment) (id : NodeId) : List Char :=
  let parentTag := ((fragment.parent? id).bind fragment.tag?).getD ""
  fragment.nodeHtml (fragment.size + 1) parentTag id

end Fragment

end Provenance.Markup
