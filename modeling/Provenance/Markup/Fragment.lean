/-! # Markup fragments

A fragment is a list of nodes that refer to each other by their places in the list. The
first node is the container; every later one was appended under a parent.
-/

namespace Provenance.Markup

/-- A node, by its place in the fragment. -/
abbrev NodeId := Nat

/-- An attribute of an element. -/
structure Attribute where
  name : String
  value : String
  deriving DecidableEq, Repr, Inhabited

/-- What a node is. -/
inductive NodeKind where
  | element (tag : String) (attributes : List Attribute)
  | text (content : String)
  | comment (content : String)
  deriving DecidableEq, Repr, Inhabited

/-- A node with its links. -/
structure Node where
  kind : NodeKind
  parent : Option NodeId := none
  children : List NodeId := []
  deriving DecidableEq, Repr, Inhabited

/-- A tree of nodes, kept as a list. -/
structure Fragment where
  nodes : List Node
  deriving DecidableEq, Repr, Inhabited

/-- The text with the letters of ASCII in lower case. -/
def lowerAscii (text : String) : String := String.ofList (text.toList.map Char.toLower)

namespace Fragment

/-- The fragment that holds an empty container. -/
def new (tag : String) : Fragment := ⟨[{ kind := .element (lowerAscii tag) [] }]⟩

/-- The container. -/
def root : NodeId := 0

/-- The number of nodes. -/
def size (fragment : Fragment) : Nat := fragment.nodes.length

/-- The node of a place. -/
def get? (fragment : Fragment) (id : NodeId) : Option Node := fragment.nodes[id]?

/-- The children of a node. -/
def children (fragment : Fragment) (id : NodeId) : List NodeId :=
  match fragment.get? id with
  | some node => node.children
  | none => []

/-- The parent that a node was appended under. -/
def parent? (fragment : Fragment) (id : NodeId) : Option NodeId :=
  (fragment.get? id).bind Node.parent

/-- The tag of a node, if it is an element. -/
def tag? (fragment : Fragment) (id : NodeId) : Option String :=
  match fragment.get? id with
  | some { kind := .element tag _, .. } => some tag
  | _ => none

/-- The tag of a node; empty for anything but an element. -/
def tag (fragment : Fragment) (id : NodeId) : String := (fragment.tag? id).getD ""

/-- Appends a node under a parent. If there is no such node, the new one stays unlinked; the
    new node itself counts as being there. -/
def append (fragment : Fragment) (parent : NodeId) (kind : NodeKind) : Fragment :=
  let nodes := fragment.nodes ++ [{ kind, parent := some parent }]
  ⟨nodes.modify parent fun node =>
    { node with children := node.children ++ [fragment.size] }⟩

/-- Appends an element; tag and attribute names are put in lower case. -/
def appendElement (fragment : Fragment) (parent : NodeId) (tag : String)
    (attributes : List Attribute) : Fragment :=
  fragment.append parent (.element (lowerAscii tag)
    (attributes.map fun attr => { attr with name := lowerAscii attr.name }))

/-- Appends a text. -/
def appendText (fragment : Fragment) (parent : NodeId) (content : String) : Fragment :=
  fragment.append parent (.text content)

/-- Appends a comment. -/
def appendComment (fragment : Fragment) (parent : NodeId) (content : String) : Fragment :=
  fragment.append parent (.comment content)

end Fragment

end Provenance.Markup
