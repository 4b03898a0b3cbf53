import Mathlib.Data.List.Basic
import Provenance.Markup.Html

/-! # Fragments as trees

Whatever parents are named while a fragment is put together, a child is linked from one
place only, and that place is its own or an earlier one. Below an element that is not its own
child every link leads further back in the list, so the number of nodes bounds the depth
and the written form of a node no longer depends on the bound.
-/

namespace Provenance.Markup.Fragment

/-- A fragment put together by appending nodes under any parents. -/
inductive Built : Fragment → Prop
  | new (tag : String) : Built (.new tag)
  | element {fragment : Fragment} (hbuilt : Built fragment) (parent : NodeId) (tag : String)
      (attributes : List Attribute) : Built (fragment.appendElement parent tag attributes)
  | text {fragment : Fragment} (hbuilt : Built fragment) (parent : NodeId) (content : String) :
      Built (fragment.appendText parent content)
  | comment {fragment : Fragment} (hbuilt : Built fragment) (parent : NodeId) (content : String) :
      Built (fragment.appendComment parent content)

/-- Whether a node is anything but an element that was appended under itself. The written form
    of such an element would not end. -/
def Proper (fragment : Fragment) (id : NodeId) : Prop :=
  fragment.tag? id ≠ none → id ∉ fragment.children id

instance (fragment : Fragment) (id : NodeId) : Decidable (fragment.Proper id) :=
  inferInstanceAs (Decidable (fragment.tag? id ≠ none → id ∉ fragment.children id))

section Append

variable (fragment : Fragment) (parent : Nat) (kind : NodeKind) (id : Nat)

theorem size_append : (fragment.append parent kind).size = fragment.size + 1 := by
  simp [append, size]

theorem get?_of_size_le (h : fragment.size ≤ id) : fragment.get? id = none :=
  List.getElem?_eq_none h

theorem get?_append :
    (fragment.append parent kind).get? id =
      (if id = fragment.size then some { kind, parent := some parent } else fragment.get? id).map
        fun node => if parent = id then { node with children := node.children ++ [fragment.size] }
          else node := by
  simp only [append, get?, size, List.getElem?_modify, List.getElem?_append]
  rcases Nat.lt_trichotomy id fragment.nodes.length with hlt | heq | hgt
  · simp [hlt, Nat.ne_of_lt hlt]
  · simp [heq]
  · have hpast : [({ kind, parent := some parent } : Node)][id - fragment.nodes.length]? = none :=
      List.getElem?_eq_none (by simp only [List.length_cons, List.length_nil]; omega)
    simp [Nat.not_lt_of_gt hgt, Nat.ne_of_gt hgt, hpast]

theorem children_append :
    (fragment.append parent kind).children id =
      fragment.children id ++ if parent = id ∧ id ≤ fragment.size then [fragment.size] else [] := by
  simp only [children, get?_append]
  rcases Nat.lt_trichotomy id fragment.size with hlt | heq | hgt
  · have hnode : fragment.get? id = some fragment.nodes[id] := List.getElem?_eq_getElem hlt
    by_cases hparent : parent = id
    · simp [hnode, hparent, Nat.ne_of_lt hlt, Nat.le_of_lt hlt]
    · simp [hnode, hparent, Nat.ne_of_lt hlt]
  · have hnone := get?_of_size_le fragment id (Nat.le_of_eq heq.symm)
    subst heq
    by_cases hparent : parent = fragment.size <;> simp [hnone, hparent]
  · have hnone := get?_of_size_le fragment id (Nat.le_of_lt hgt)
    simp [hnone, Nat.ne_of_gt hgt, Nat.not_le_of_gt hgt]

theorem parent?_append :
    (fragment.append parent kind).parent? id =
      if id = fragment.size then some parent else fragment.parent? id := by
  simp only [parent?, get?_append]
  by_cases hnew : id = fragment.size
  · subst hnew
    by_cases hparent : parent = fragment.size <;> simp [hparent]
  · cases hnode : fragment.get? id with
    | none => simp [hnew]
    | some node => by_cases hparent : parent = id <;> simp [hnew, hparent]

end Append

/-- The links of a fragment: a child names its parent and does not come before it. -/
def Linked (fragment : Fragment) : Prop :=
  ∀ id child : Nat, child ∈ fragment.children id →
    id ≤ child ∧ child < fragment.size ∧ fragment.parent? child = some id

variable {fragment : Fragment} {id child : Nat} {node : Node}

theorem Linked.append (hlinked : fragment.Linked) (parent : NodeId) (kind : NodeKind) :
    (fragment.append parent kind).Linked := by
  intro id child hchild
  rw [children_append, List.mem_append] at hchild
  rw [size_append, parent?_append]
  rcases hchild with hchild | hchild
  · obtain ⟨hle, hlt, hparent⟩ := hlinked id child hchild
    rw [if_neg (by omega)]
    exact ⟨hle, by omega, hparent⟩
  · split at hchild
    · rename_i hid
      have hnew : child = fragment.size := by simpa using hchild
      rw [if_pos hnew]
      exact ⟨by omega, by omega, congrArg some hid.1⟩
    · simp at hchild

theorem Built.linked (hbuilt : fragment.Built) : fragment.Linked := by
  induction hbuilt with
  | new tag =>
      intro id child hchild
      have hnone : (Fragment.new tag).children id = [] := by
        cases id with
        | zero => rfl
        | succ id => rfl
      rw [hnone] at hchild
      cases hchild
  | element _ parent tag attributes ih => exact ih.append parent _
  | text _ parent content ih => exact ih.append parent _
  | comment _ parent content ih => exact ih.append parent _

/-- What the node of a place is. -/
def kind? (fragment : Fragment) (id : NodeId) : Option NodeKind :=
  (fragment.get? id).map Node.kind

/-- The attributes of a node; none for anything but an element. -/
def attributes (fragment : Fragment) (id : NodeId) : List Attribute :=
  match fragment.kind? id with
  | some (.element _ attributes) => attributes
  | _ => []

/-- The content of a text. -/
def content? (fragment : Fragment) (id : NodeId) : Option String :=
  match fragment.kind? id with
  | some (.text content) => some content
  | _ => none

theorem kind_of_get (hnode : fragment.get? id = some node) :
    fragment.kind? id = some node.kind := by
  simp only [kind?, hnode, Option.map_some]

theorem children_eq_of_get (hnode : fragment.get? id = some node) :
    fragment.children id = node.children := by
  simp only [children, hnode]

theorem tag?_of_get {tag : String} {attributes : List Attribute}
    (hnode : fragment.get? id = some node) (hkind : node.kind = .element tag attributes) :
    fragment.tag? id = some tag := by
  obtain ⟨kind, parent, children⟩ := node
  subst hkind
  simp only [tag?, hnode]

theorem tag?_ne_none_of_get {tag : String} {attributes : List Attribute}
    (hnode : fragment.get? id = some node) (hkind : node.kind = .element tag attributes) :
    fragment.tag? id ≠ none := by
  rw [tag?_of_get hnode hkind]
  exact Option.some_ne_none tag

theorem exists_of_tag?_ne_none (htag : fragment.tag? id ≠ none) :
    ∃ node tag attributes, fragment.get? id = some node ∧ node.kind = .element tag attributes := by
  cases hnode : fragment.get? id with
  | none => simp [tag?, hnode] at htag
  | some node =>
      obtain ⟨kind, parent, children⟩ := node
      cases kind with
      | element tag attributes => exact ⟨_, tag, attributes, rfl, rfl⟩
      | text content => simp [tag?, hnode] at htag
      | comment content => simp [tag?, hnode] at htag

theorem tag_of_get {tag : String} {attributes : List Attribute}
    (hnode : fragment.get? id = some node) (hkind : node.kind = .element tag attributes) :
    fragment.tag id = tag := by
  simp only [Fragment.tag, tag?_of_get hnode hkind, Option.getD_some]

theorem attributes_of_get {tag : String} {attributes : List Attribute}
    (hnode : fragment.get? id = some node) (hkind : node.kind = .element tag attributes) :
    fragment.attributes id = attributes := by
  simp only [Fragment.attributes, kind_of_get hnode, hkind]

theorem content?_of_get {content : String} (hnode : fragment.get? id = some node)
    (hkind : node.kind = .text content) : fragment.content? id = some content := by
  simp only [content?, kind_of_get hnode, hkind]

theorem exists_of_content? {content : String} (h : fragment.content? id = some content) :
    ∃ node, fragment.get? id = some node ∧ node.kind = .text content := by
  cases hnode : fragment.get? id with
  | none => simp [content?, kind?, hnode] at h
  | some node =>
      refine ⟨node, rfl, ?_⟩
      cases hkind : node.kind with
      | text other =>
          rw [content?_of_get hnode hkind] at h
          exact congrArg NodeKind.text (Option.some.inj h)
      | element tag attributes => simp [content?, kind_of_get hnode, hkind] at h
      | comment other => simp [content?, kind_of_get hnode, hkind] at h

/-- The tag of the element that a node was appended under. -/
def parentTag (fragment : Fragment) (id : NodeId) : String :=
  ((fragment.parent? id).bind fragment.tag?).getD ""

theorem parentTag_of_child (hbuilt : fragment.Built) (hchild : child ∈ fragment.children id) :
    fragment.parentTag child = fragment.tag id := by
  obtain ⟨-, -, hparent⟩ := hbuilt.linked id child hchild
  rw [parentTag, hparent]
  rfl

/-- The children of a proper node are in the list and proper themselves. -/
theorem Built.child_of_proper (hbuilt : fragment.Built) (hproper : fragment.Proper id)
    (hchild : child ∈ fragment.children id) : child < fragment.size ∧ fragment.Proper child := by
  obtain ⟨-, hlt, hparent⟩ := hbuilt.linked id child hchild
  refine ⟨hlt, fun htag hself => ?_⟩
  obtain ⟨-, -, hagain⟩ := hbuilt.linked child child hself
  rw [hparent] at hagain
  obtain rfl : id = child := Option.some.inj hagain
  exact hproper htag hself

/-- The children of a proper element come after it. -/
theorem Built.lt_of_proper (hbuilt : fragment.Built) (hproper : fragment.Proper id)
    (htag : fragment.tag? id ≠ none) (hchild : child ∈ fragment.children id) : id < child := by
  obtain ⟨hle, -, -⟩ := hbuilt.linked id child hchild
  refine Nat.lt_of_le_of_ne hle ?_
  rintro rfl
  exact hproper htag hchild

/-- Descent below proper nodes: a bound above the number of nodes from an element on is above
    that of every child when one level is taken off. -/
theorem Built.descend (hbuilt : fragment.Built) {motive : Nat → Nat → Prop}
    (hstep : ∀ (depth id : Nat), fragment.Proper id → fragment.size - id < depth + 1 →
      (fragment.tag? id ≠ none → ∀ child ∈ fragment.children id,
        fragment.size - child < depth ∧ motive depth child) → motive (depth + 1) id) :
    ∀ {depth id : Nat}, fragment.Proper id → fragment.size - id < depth → motive depth id := by
  intro depth
  induction depth with
  | zero => intro id _ hdepth'; omega
  | succ depth ih =>
      intro id hcontainer hdepth
      refine hstep depth id hcontainer hdepth fun htag child hchild => ?_
      obtain ⟨hsize, hproper⟩ := hbuilt.child_of_proper hcontainer hchild
      have hlt := hbuilt.lt_of_proper hcontainer htag hchild
      have hbound : fragment.size - child < depth := by omega
      exact ⟨hbound, ih hproper hbound⟩

/-- The nodes that are written for a container. What was appended under a text or a comment
    is never written. -/
inductive Below (fragment : Fragment) (container : NodeId) : NodeId → Prop
  | child {child : NodeId} (hchild : child ∈ fragment.children container) :
      Below fragment container child
  | step {id child : NodeId} (hbelow : Below fragment container id)
      (htag : fragment.tag? id ≠ none) (hchild : child ∈ fragment.children id) :
      Below fragment container child

theorem Built.lt_of_below (hbuilt : fragment.Built) {container : Nat}
    (hbelow : fragment.Below container id) : id < fragment.size := by
  cases hbelow with
  | child hchild => exact (hbuilt.linked _ id hchild).2.1
  | step _ _ hchild => exact (hbuilt.linked _ id hchild).2.1

theorem Built.proper_of_below (hbuilt : fragment.Built) {container : Nat}
    (hproper : fragment.Proper container) (hbelow : fragment.Below container id) :
    fragment.Proper id := by
  induction hbelow with
  | child hchild => exact (hbuilt.child_of_proper hproper hchild).2
  | step _ _ hchild ih => exact (hbuilt.child_of_proper ih hchild).2

/-- Above the number of nodes the bound does not matter. -/
theorem nodeHtml_of_depth (hbuilt : fragment.Built) {depth : Nat} (hproper : fragment.Proper id)
    (hdepth : fragment.size - id < depth) (tag : String) :
    fragment.nodeHtml depth tag id = fragment.nodeHtml (fragment.size + 1) tag id := by
  refine hbuilt.descend (motive := fun depth id => ∀ depth' tag, fragment.size - id < depth' →
    fragment.nodeHtml depth tag id = fragment.nodeHtml depth' tag id) ?_ hproper hdepth
      (fragment.size + 1) tag (by omega)
  intro depth id hproper _ ih depth' tag hdepth'
  cases depth' with
  | zero => omega
  | succ depth' =>
      cases hnode : fragment.get? id with
      | none => simp only [nodeHtml, hnode]
      | some node =>
          cases hkind : node.kind with
          | text content => simp only [nodeHtml, hnode, hkind]
          | comment content => simp only [nodeHtml, hnode, hkind]
          | element inner attributes =>
              simp only [nodeHtml, hnode, hkind]
              congr 3
              refine List.flatMap_congr fun child hchild => ?_
              rw [← children_eq_of_get hnode] at hchild
              obtain ⟨hsize, -⟩ := hbuilt.child_of_proper hproper hchild
              have htag := tag?_ne_none_of_get hnode hkind
              have hlt := hbuilt.lt_of_proper hproper htag hchild
              exact (ih htag child hchild).2 depth' inner (by omega)

/-- A node is written the same wherever it is reached from. -/
theorem outerHtml_of_depth (hbuilt : fragment.Built) (hproper : fragment.Proper id) {depth : Nat}
    (hdepth : fragment.size - id < depth) :
    fragment.outerHtml id = fragment.nodeHtml depth (fragment.parentTag id) id :=
  (nodeHtml_of_depth hbuilt hproper hdepth _).symm

/-- The children of an element are written one after another. -/
theorem innerHtml_of_element (hbuilt : fragment.Built) (hcontainer : fragment.Proper id)
    {depth : Nat}
    (hdepth : fragment.size - id < depth + 1) {tag : String} {attributes : List Attribute}
    (hnode : fragment.get? id = some node) (hkind : node.kind = .element tag attributes) :
    node.children.flatMap (fragment.nodeHtml depth tag) = fragment.innerHtml id := by
  rw [innerHtml, children_eq_of_get hnode, tag_of_get hnode hkind]
  refine List.flatMap_congr fun child hchild => ?_
  rw [← children_eq_of_get hnode] at hchild
  obtain ⟨hsize, hproper⟩ := hbuilt.child_of_proper hcontainer hchild
  have hlt := hbuilt.lt_of_proper hcontainer (tag?_ne_none_of_get hnode hkind) hchild
  exact nodeHtml_of_depth hbuilt hproper (by omega) tag

end Provenance.Markup.Fragment
