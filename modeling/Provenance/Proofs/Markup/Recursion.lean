import Provenance.Markup.Mapper
import Provenance.Proofs.Markup.Forest

/-! # The recursions end

The written form of a fragment and the walk over it are recursions from elements to their children.
Here both are given without a bound, as what a run of them visits and yields. From a node that is
not its own child there is such a run, it yields what the bounded definitions yield, and it visits
nothing twice.
-/

namespace Provenance.Markup

namespace Fragment

/-- The writing of a list of nodes inside an element of the given tag: the nodes it visits, in
    order, and what it writes. -/
inductive Writes (fragment : Fragment) :
    (parentTag : String) → (ids visited : List Nat) → (html : List Char) → Prop
  | nil {parentTag : String} : Writes fragment parentTag [] [] []
  | absent {parentTag : String} {id : Nat} {ids visited : List Nat} {html : List Char}
      (hnode' : fragment.get? id = none) (hrest : Writes fragment parentTag ids visited html) :
      Writes fragment parentTag (id :: ids) (id :: visited) html
  | text {parentTag content : String} {id : Nat} {node : Node} {ids visited : List Nat}
      {html : List Char} (hnode : fragment.get? id = some node) (hkind : node.kind = .text content)
      (hrest : Writes fragment parentTag ids visited html) :
      Writes fragment parentTag (id :: ids) (id :: visited)
        (escapeText parentTag content.toList ++ html)
  | comment {parentTag content : String} {id : Nat} {node : Node} {ids visited : List Nat}
      {html : List Char} (hnode : fragment.get? id = some node)
      (hkind : node.kind = .comment content) (hrest : Writes fragment parentTag ids visited html) :
      Writes fragment parentTag (id :: ids) (id :: visited)
        ("<!--".toList ++ content.toList ++ "-->".toList ++ html)
  | void {parentTag tag : String} {attributes : List Attribute} {id : Nat} {node : Node}
      {ids visited : List Nat} {html : List Char} (hnode : fragment.get? id = some node)
      (hkind : node.kind = .element tag attributes) (hvoid : isVoid tag = true)
      (hrest : Writes fragment parentTag ids visited html) :
      Writes fragment parentTag (id :: ids) (id :: visited) (openingTag tag attributes ++ html)
  | element {parentTag tag : String} {attributes : List Attribute} {id : Nat} {node : Node}
      {ids inner visited : List Nat} {content html : List Char}
      (hnode : fragment.get? id = some node)
      (hkind : node.kind = .element tag attributes) (hvoid : isVoid tag = false)
      (hinside : Writes fragment tag node.children inner content)
      (hrest : Writes fragment parentTag ids visited html) :
      Writes fragment parentTag (id :: ids) (id :: inner ++ visited)
        (openingTag tag attributes ++ content ++ closingTag tag ++ html)

/-- Whether a number of levels is enough for a node and all that is below it. -/
structure EndsWithin (fragment : Fragment) (depth : Nat) (id : Nat) : Prop where
  proper : fragment.Proper id
  lt : fragment.size - id < depth

variable {fragment : Fragment} {id container depth : Nat} {node : Node} {parentTag tag : String}
  {attributes : List Attribute} {ids visited : List Nat} {html : List Char}

/-- Where there is a node, some level is needed. -/
theorem endsWithin_cons (hids : ∀ other ∈ id :: ids, fragment.EndsWithin depth other) :
    ∃ less, depth = less + 1 ∧ fragment.EndsWithin (less + 1) id ∧
      ∀ other ∈ ids, fragment.EndsWithin (less + 1) other := by
  obtain ⟨hid, hrest⟩ := List.forall_mem_cons.mp hids
  cases depth with
  | zero => exact absurd hid.lt (Nat.not_lt_zero _)
  | succ less => exact ⟨less, rfl, hid, hrest⟩

/-- The children of an element need a level less. -/
theorem EndsWithin.children (hbuilt : fragment.Built) (hends : fragment.EndsWithin (depth + 1) id)
    (hnode : fragment.get? id = some node) (hkind : node.kind = .element tag attributes) :
    ∀ child ∈ node.children, fragment.EndsWithin depth child := by
  intro child hchild
  rw [← children_eq_of_get hnode] at hchild
  obtain ⟨hsize, hproper⟩ := hbuilt.child_of_proper hends.proper hchild
  have hlt := hbuilt.lt_of_proper hends.proper (tag?_ne_none_of_get hnode hkind) hchild
  have hbound := hends.lt
  exact ⟨hproper, by omega⟩

/-- The definitions allow enough levels, unless a node is its own child. -/
theorem endsWithin_of_child (hbuilt : fragment.Built)
    (hown : container ∉ fragment.children container) :
    ∀ child ∈ fragment.children container, fragment.EndsWithin (fragment.size + 1) child := by
  intro child hchild
  exact ⟨(hbuilt.child_of_proper (fun _ => hown) hchild).2, by omega⟩

/-- Induction on lists of nodes that levels are enough for: a list with a first node has a rest, and
    if that node is an element it has children. -/
theorem Built.levels (hbuilt : fragment.Built) {motive : String → List Nat → Prop}
    (hnil : ∀ parentTag, motive parentTag [])
    (hcons : ∀ {depth id : Nat} {ids : List Nat} (parentTag : String),
      fragment.EndsWithin (depth + 1) id →
        (∀ {node : Node} {tag : String} {attributes : List Attribute},
          fragment.get? id = some node →
          node.kind = .element tag attributes → motive tag node.children) →
        motive parentTag ids → motive parentTag (id :: ids))
    (hids : ∀ id ∈ ids, fragment.EndsWithin depth id) (parentTag : String) :
    motive parentTag ids := by
  induction depth generalizing ids parentTag with
  | zero =>
      cases ids with
      | nil => exact hnil parentTag
      | cons id ids =>
          obtain ⟨less, hzero, -⟩ := endsWithin_cons hids
          cases hzero
  | succ depth ihDepth =>
      induction ids with
      | nil => exact hnil parentTag
      | cons id ids ih =>
          obtain ⟨hid, hrest⟩ := List.forall_mem_cons.mp hids
          refine hcons parentTag hid (fun {_ tag _} hnode hkind => ?_) (ih hrest)
          exact ihDepth (hid.children hbuilt hnode hkind) tag

namespace Writes

theorem visits (hwrites : fragment.Writes parentTag ids visited html) :
    fragment.Visits ids visited := by
  induction hwrites with
  | nil => exact .nil
  | absent _ _ ih | text _ _ _ ih | comment _ _ _ ih | void _ _ _ _ ih => exact .pass ih
  | element hnode hkind _ _ _ ihInside ih =>
      rw [← children_eq_of_get hnode] at ihInside
      exact .enter (tag?_ne_none_of_get hnode hkind) ihInside ih

theorem html_eq (hbuilt : fragment.Built) (hwrites : fragment.Writes parentTag ids visited html)
    (hids : ∀ id ∈ ids, fragment.EndsWithin depth id) :
    html = ids.flatMap (fragment.nodeHtml depth parentTag) := by
  induction hwrites generalizing depth with
  | nil => rfl
  | absent hnode' _ ih =>
      obtain ⟨depth, rfl, hid, hrest⟩ := endsWithin_cons hids
      simp only [ih hrest, List.flatMap_cons, nodeHtml, hnode', List.nil_append]
  | text hnode hkind _ ih | comment hnode hkind _ ih =>
      obtain ⟨depth, rfl, hid, hrest⟩ := endsWithin_cons hids
      simp only [ih hrest, List.flatMap_cons, nodeHtml, hnode, hkind]
  | void hnode hkind hvoid _ ih =>
      obtain ⟨depth, rfl, hid, hrest⟩ := endsWithin_cons hids
      simp only [ih hrest, List.flatMap_cons, nodeHtml, hnode, hkind, hvoid, if_true,
        List.append_nil]
  | element hnode hkind hvoid _ _ ihInside ih =>
      obtain ⟨depth, rfl, hid, hrest⟩ := endsWithin_cons hids
      have hinside := ihInside (hid.children hbuilt hnode hkind)
      simp [ih hrest, hinside, nodeHtml, hnode, hkind, hvoid]

/-- Nothing is written for an element that is its own child, unless it is void: it would not end. -/
theorem not_mem_of_own (hwrites : fragment.Writes parentTag ids visited html)
    (hnode : fragment.get? id = some node) (hkind : node.kind = .element tag attributes)
    (hvoid : isVoid tag = false) (hself : id ∈ fragment.children id) : id ∉ ids := by
  rw [children_eq_of_get hnode] at hself
  induction hwrites with
  | nil => exact List.not_mem_nil
  | absent hnode' _ ih =>
      rintro (_ | ⟨_, hrest⟩)
      · cases hnode.symm.trans hnode'
      · exact ih hrest
  | text hnode' hkind' _ ih | comment hnode' hkind' _ ih =>
      rintro (_ | ⟨_, hrest⟩)
      · cases hnode.symm.trans hnode'
        cases hkind.symm.trans hkind'
      · exact ih hrest
  | void hnode' hkind' hvoid' _ ih =>
      rintro (_ | ⟨_, hrest⟩)
      · cases hnode.symm.trans hnode'
        cases hkind.symm.trans hkind'
        cases hvoid.symm.trans hvoid'
      · exact ih hrest
  | element hnode' _ _ _ _ ihInside ih =>
      rintro (_ | ⟨_, hrest⟩)
      · cases hnode.symm.trans hnode'
        exact ihInside hself
      · exact ih hrest

end Writes

theorem Built.exists_writes (hbuilt : fragment.Built)
    (hids : ∀ id ∈ ids, fragment.EndsWithin depth id)
    (parentTag : String) : ∃ visited html, fragment.Writes parentTag ids visited html := by
  refine hbuilt.levels (motive := fun parentTag ids =>
    ∃ visited html, fragment.Writes parentTag ids visited html) ?_ ?_ hids parentTag
  · exact fun _ => ⟨[], [], .nil⟩
  · rintro depth id ids parentTag - hchildren ⟨visited, html, hrest⟩
    cases hnode : fragment.get? id with
    | none => exact ⟨_, _, .absent hnode hrest⟩
    | some node =>
        cases hkind : node.kind with
        | text content => exact ⟨_, _, .text hnode hkind hrest⟩
        | comment content => exact ⟨_, _, .comment hnode hkind hrest⟩
        | element tag attributes =>
            cases hvoid : isVoid tag with
            | true => exact ⟨_, _, .void hnode hkind hvoid hrest⟩
            | false =>
                obtain ⟨inner, content, hinside⟩ := hchildren hnode hkind
                exact ⟨_, _, .element hnode hkind hvoid hinside hrest⟩

/-- The written form of the children of a node is made up of theirs. -/
theorem innerHtml_eq_flatMap (hbuilt : fragment.Built) (hown : id ∉ fragment.children id) :
    fragment.innerHtml id = (fragment.children id).flatMap fragment.outerHtml := by
  refine List.flatMap_congr fun child hchild => ?_
  have hends := endsWithin_of_child hbuilt hown child hchild
  rw [outerHtml_of_depth hbuilt hends.proper hends.lt, parentTag_of_child hbuilt hchild]

end Fragment

namespace Mapper

open Fragment

variable {build : Build}

/-- The walk over a list of nodes inside an element of the given tag: the nodes it visits, in order,
    and the stretch it makes. What is ignored, and the content of an inline frame, is written to
    know its length. -/
inductive Walks (mapper : Mapper build) :
    (parentTag : String) → (ids visited : List Nat) → Walk → Prop
  | nil {parentTag : String} : Walks mapper parentTag [] [] .stay
  | ignored {parentTag : String} {id : Nat} {ids inner visited : List Nat} {html : List Char}
      {walk : Walk} (hignored : id ∈ mapper.ignored)
      (hwhole : mapper.fragment.Writes (mapper.fragment.parentTag id) [id] inner html)
      (hrest : Walks mapper parentTag ids visited walk) :
      Walks mapper parentTag (id :: ids) (inner ++ visited) ((Walk.skip html.length).andThen walk)
  | absent {parentTag : String} {id : Nat} {ids visited : List Nat} {walk : Walk}
      (hignored : id ∉ mapper.ignored) (hnode' : mapper.fragment.get? id = none)
      (hrest : Walks mapper parentTag ids visited walk) :
      Walks mapper parentTag (id :: ids) (id :: visited) (Walk.stay.andThen walk)
  | text {parentTag content : String} {id : Nat} {node : Node} {ids visited : List Nat}
      {walk : Walk} (hignored : id ∉ mapper.ignored) (hnode : mapper.fragment.get? id = some node)
      (hkind : node.kind = .text content) (hrest : Walks mapper parentTag ids visited walk) :
      Walks mapper parentTag (id :: ids) (id :: visited)
        ((mapper.text id parentTag content).andThen walk)
  | comment {parentTag content : String} {id : Nat} {node : Node} {ids visited : List Nat}
      {walk : Walk} (hignored : id ∉ mapper.ignored) (hnode : mapper.fragment.get? id = some node)
      (hkind : node.kind = .comment content) (hrest : Walks mapper parentTag ids visited walk) :
      Walks mapper parentTag (id :: ids) (id :: visited) ((mapper.comment id content).andThen walk)
  | unclosed {parentTag tag : String} {attributes : List Attribute} {id : Nat} {node : Node}
      {ids visited : List Nat} {walk : Walk} (hignored : id ∉ mapper.ignored)
      (hnode : mapper.fragment.get? id = some node) (hkind : node.kind = .element tag attributes)
      (hclosing : mapper.closingTags tag = false)
      (hrest : Walks mapper parentTag ids visited walk) :
      Walks mapper parentTag (id :: ids) (id :: visited)
        (((mapper.opening id tag attributes).andThen <|
          if node.children.isEmpty then .stay
          else .mismatch build (.childrenOfUnclosed tag)).andThen walk)
  | frame {parentTag : String} {attributes : List Attribute} {id : Nat} {node : Node}
      {ids inner visited : List Nat} {html : List Char} {walk : Walk}
      (hignored : id ∉ mapper.ignored)
      (hnode : mapper.fragment.get? id = some node)
      (hkind : node.kind = .element "iframe" attributes)
      (hclosing : mapper.closingTags "iframe" = true)
      (hinside : mapper.fragment.Writes "iframe" node.children inner html)
      (hrest : Walks mapper parentTag ids visited walk) :
      Walks mapper parentTag (id :: ids) (id :: inner ++ visited)
        (((mapper.opening id "iframe" attributes).andThen
          (.all [.advance html.length, mapper.closing id "iframe"])).andThen walk)
  | element {parentTag tag : String} {attributes : List Attribute} {id : Nat} {node : Node}
      {ids inner visited : List Nat} {content walk : Walk} (hignored : id ∉ mapper.ignored)
      (hnode : mapper.fragment.get? id = some node) (hkind : node.kind = .element tag attributes)
      (hclosing : mapper.closingTags tag = true) (hframe : tag ≠ "iframe")
      (hinside : Walks mapper tag node.children inner content)
      (hrest : Walks mapper parentTag ids visited walk) :
      Walks mapper parentTag (id :: ids) (id :: inner ++ visited)
        (((mapper.opening id tag attributes).andThen
          (.all [(mapper.mark id).andThen content, mapper.closing id tag])).andThen walk)

variable {mapper : Mapper build} {parentTag : String} {ids visited : List Nat} {walk : Walk}
  {container depth : Nat}

namespace Walks

theorem visits (hwalks : mapper.Walks parentTag ids visited walk) :
    mapper.fragment.Visits ids visited := by
  induction hwalks with
  | nil => exact .nil
  | ignored _ hwhole _ ih => exact hwhole.visits.append ih
  | absent _ _ _ ih | text _ _ _ _ ih | comment _ _ _ _ ih | unclosed _ _ _ _ _ ih => exact .pass ih
  | frame _ hnode hkind _ hwithin _ ih =>
      have hinside := hwithin.visits
      rw [← children_eq_of_get hnode] at hinside
      exact .enter (tag?_ne_none_of_get hnode hkind) hinside ih
  | element _ hnode hkind _ _ _ _ ihInside ih =>
      rw [← children_eq_of_get hnode] at ihInside
      exact .enter (tag?_ne_none_of_get hnode hkind) ihInside ih

theorem walk_eq (hbuilt : mapper.fragment.Built) (hwalks : mapper.Walks parentTag ids visited walk)
    (hids : ∀ id ∈ ids, mapper.fragment.EndsWithin depth id) :
    walk = .all (ids.map (mapper.node depth parentTag)) := by
  induction hwalks generalizing depth with
  | nil => rfl
  | ignored hignored hended _ ih =>
      obtain ⟨depth, rfl, hid, hrest⟩ := endsWithin_cons hids
      have hwhole := hended.html_eq hbuilt (List.forall_mem_singleton.mpr hid)
      rw [List.flatMap_singleton, ← outerHtml_of_depth hbuilt hid.proper hid.lt] at hwhole
      simp only [ih hrest, hwhole, List.map_cons, Walk.all, node, hignored, if_true]
  | absent hignored hnode' _ ih =>
      obtain ⟨depth, rfl, hid, hrest⟩ := endsWithin_cons hids
      simp only [ih hrest, List.map_cons, Walk.all, node, hignored, if_false, hnode']
  | text hignored hnode hkind _ ih | comment hignored hnode hkind _ ih =>
      obtain ⟨depth, rfl, hid, hrest⟩ := endsWithin_cons hids
      simp only [ih hrest, List.map_cons, Walk.all, node, hignored, if_false, hnode, hkind]
  | unclosed hignored hnode hkind hclosing _ ih =>
      obtain ⟨depth, rfl, hid, hrest⟩ := endsWithin_cons hids
      simp [ih hrest, Walk.all, node, hignored, hnode, hkind, hclosing]
  | frame hignored hnode hkind hclosing hwithin _ ih =>
      obtain ⟨depth, rfl, hid, hrest⟩ := endsWithin_cons hids
      have hinside := hwithin.html_eq hbuilt (hid.children hbuilt hnode hkind)
      rw [innerHtml_of_element hbuilt hid.proper hid.lt hnode hkind] at hinside
      simp [ih hrest, hinside, Walk.all, node, hignored, hnode, hkind, hclosing]
  | element hignored hnode hkind hclosing hframe _ _ ihInside ih =>
      obtain ⟨depth, rfl, hid, hrest⟩ := endsWithin_cons hids
      have hinside := ihInside (hid.children hbuilt hnode hkind)
      simp [ih hrest, hinside, Walk.all, node, hignored, hnode, hkind, hclosing, hframe]

end Walks

theorem exists_walks (hbuilt : mapper.fragment.Built)
    (hids : ∀ id ∈ ids, mapper.fragment.EndsWithin depth id) (parentTag : String) :
    ∃ visited walk, mapper.Walks parentTag ids visited walk := by
  refine hbuilt.levels (motive := fun parentTag ids =>
    ∃ visited walk, mapper.Walks parentTag ids visited walk) ?_ ?_ hids parentTag
  · exact fun _ => ⟨[], .stay, .nil⟩
  · rintro depth id ids parentTag hid hchildren ⟨visited, walk, hrest⟩
    by_cases hignored : id ∈ mapper.ignored
    · obtain ⟨inner, html, hwhole⟩ := hbuilt.exists_writes (List.forall_mem_singleton.mpr hid)
        (mapper.fragment.parentTag id)
      exact ⟨_, _, .ignored hignored hwhole hrest⟩
    cases hnode : mapper.fragment.get? id with
    | none => exact ⟨_, _, .absent hignored hnode hrest⟩
    | some node =>
        cases hkind : node.kind with
        | text content => exact ⟨_, _, .text hignored hnode hkind hrest⟩
        | comment content => exact ⟨_, _, .comment hignored hnode hkind hrest⟩
        | element tag attributes =>
            cases hclosing : mapper.closingTags tag with
            | false => exact ⟨_, _, .unclosed hignored hnode hkind hclosing hrest⟩
            | true =>
                by_cases hframe : tag = "iframe"
                · subst hframe
                  obtain ⟨inner, html, hinside⟩ :=
                    hbuilt.exists_writes (hid.children hbuilt hnode hkind) "iframe"
                  exact ⟨_, _, .frame hignored hnode hkind hclosing hinside hrest⟩
                · obtain ⟨inner, content, hinside⟩ := hchildren hnode hkind
                  exact ⟨_, _, .element hignored hnode hkind hclosing hframe hinside hrest⟩

end Mapper

namespace Fragment

/-- A fragment is a forest, whatever parents were named. From a node that is not its own child, both
    recursions end: there is a run of each, every run yields what is defined with a bound, and no
    run visits a node twice. -/
theorem recursions_end {fragment : Fragment} (hbuilt : fragment.Built) :
    fragment.Forest ∧ ∀ container, container ∉ fragment.children container →
      let tag := fragment.tag container
      let children := fragment.children container
      (∃ visited html, fragment.Writes tag children visited html) ∧
      (∀ visited html, fragment.Writes tag children visited html →
        html = fragment.innerHtml container ∧ visited.Nodup ∧
          ∀ id ∈ visited, fragment.Below container id) ∧
      fragment.innerHtml container = children.flatMap fragment.outerHtml ∧
      ∀ (build : Build) (mapper : Mapper build), mapper.fragment = fragment →
        (∃ visited walk, mapper.Walks tag children visited walk) ∧
        ∀ visited walk, mapper.Walks tag children visited walk →
          mapper.content container = (mapper.mark container).andThen walk ∧ visited.Nodup ∧
            ∀ id ∈ visited, fragment.Below container id := by
  refine ⟨hbuilt.forest, fun container hown => ?_⟩
  have hids := endsWithin_of_child hbuilt hown
  refine ⟨hbuilt.exists_writes hids _, fun visited html hwrites => ?_,
    innerHtml_eq_flatMap hbuilt hown, ?_⟩
  · exact ⟨hwrites.html_eq hbuilt hids, hwrites.visits.of_children hbuilt hown⟩
  · rintro build mapper rfl
    refine ⟨mapper.exists_walks hbuilt hids _, fun visited walk hwalks =>
      ⟨?_, hwalks.visits.of_children hbuilt hown⟩⟩
    rw [hwalks.walk_eq hbuilt hids]
    rfl

/-- A paragraph with a comment below its text, an inline frame, an element under a node that is not
    there and one under itself. -/
def tangled : Fragment :=
  (Fragment.new "div").appendElement 9 "p" []
    |>.appendElement 2 "b" []
    |>.appendElement 0 "p" []
    |>.appendText 3 "a"
    |>.appendComment 4 "c"
    |>.appendElement 0 "iframe" []
    |>.appendText 6 "x"

theorem tangled_built : tangled.Built :=
  .text (.element (.comment (.text (.element (.element (.element (.new _) _ _ _) _ _ _) _ _ _) _ _)
    _ _) _ _ _) _ _

theorem recursions_end_tangled :
    tangled.Built ∧ tangled.children 4 = [5] ∧
    (∀ visited html, ¬ tangled.Writes "b" (tangled.children 2) visited html) ∧
    0 ∉ tangled.children 0 ∧
    tangled.Writes "div" [3, 6] [3, 4, 6, 7] (tangled.innerHtml 0) ∧
    tangled.innerHtml 0 = "<p>a</p><iframe>x</iframe>".toList ∧
    let value := "<p>a</p><iframe>x</iframe>"
    let mapper : Mapper .checked :=
      ⟨tangled, ClosingTags.byVoidTags, ⟨value.toList, 26⟩, value, none, [3], none⟩
    ∃ walk, mapper.Walks "div" [3, 6] [3, 4, 6, 7] walk ∧
      mapper.content 0 = (mapper.mark 0).andThen walk := by
  have hself : 0 ∉ tangled.children 0 := by decide
  obtain ⟨-, hends⟩ := recursions_end tangled_built
  obtain ⟨-, hwrites, -, hwalks⟩ := hends 0 hself
  have hparagraph : tangled.Writes "p" [4] _ _ := .text rfl rfl .nil
  have hframe : tangled.Writes "iframe" [7] _ _ := .text rfl rfl .nil
  have hwritten : tangled.Writes "div" [3, 6] _ _ :=
    .element rfl rfl rfl hparagraph (.element rfl rfl rfl hframe .nil)
  have hhtml := (hwrites _ _ hwritten).1
  rw [hhtml] at hwritten
  have hendless : ∀ visited html, ¬ tangled.Writes "b" (tangled.children 2) visited html := by
    intro visited html hwrites'
    have hget : tangled.get? 2 = some _ := rfl
    exact hwrites'.not_mem_of_own hget rfl rfl (by decide) (by decide)
  refine ⟨tangled_built, by decide, hendless, hself, hwritten, by decide +kernel, ?_⟩
  intro value mapper
  have hwhole : tangled.Writes "div" [3] _ _ := .element rfl rfl rfl hparagraph .nil
  have hwalk : mapper.Walks "div" [3, 6] _ _ :=
    .ignored (by decide) hwhole (.frame (by decide) rfl rfl rfl hframe .nil)
  exact ⟨_, hwalk, ((hwalks .checked mapper rfl).2 _ _ hwalk).1⟩

end Fragment

end Provenance.Markup
