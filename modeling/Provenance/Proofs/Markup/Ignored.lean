import Provenance.Proofs.Markup.Leads
import Provenance.Proofs.Markup.Overflow

/-! # Ignored nodes leave no trace

Nodes that the assignment did not produce are passed over: their characters count as written and
as added, which cancels out in the assigned position. Two walks are followed side by side, one that
passes over the ignored nodes and one over the same tree without them. All that a stretch of the
walk reads of its cursor is the assigned position, so both yield the same origins, apart from where
those are written.
-/

namespace Provenance.Markup

/-! ## Trees without some of their nodes -/

namespace Fragment

/-- The fragment with some nodes taken out of every list of children. -/
def without (fragment : Fragment) (ignored : List NodeId) : Fragment :=
  ⟨fragment.nodes.map fun node =>
    { node with children := node.children.filter (· ∉ ignored) }⟩

variable {fragment : Fragment} {ignored : List NodeId} {container id child : NodeId}

@[simp] theorem get?_without : (fragment.without ignored).get? id = (fragment.get? id).map
    fun node => { node with children := node.children.filter (· ∉ ignored) } :=
  List.getElem?_map

@[simp] theorem size_without : (fragment.without ignored).size = fragment.size :=
  List.length_map _

@[simp] theorem children_without :
    (fragment.without ignored).children id = (fragment.children id).filter (· ∉ ignored) := by
  cases hnode : fragment.get? id with
  | none => simp [children, hnode]
  | some node => simp [children, hnode]

@[simp] theorem tag_without : (fragment.without ignored).tag id = fragment.tag id := by
  cases hnode : fragment.get? id with
  | none => simp [Fragment.tag, tag?, hnode]
  | some node =>
      obtain ⟨kind, parent, children⟩ := node
      cases kind <;> simp [Fragment.tag, tag?, hnode]

/-- What is below a child that is an element is below its parent. -/
theorem Below.of_child (htag : fragment.tag? child ≠ none)
    (hchild : child ∈ fragment.children container) (hbelow : fragment.Below child id) :
    fragment.Below container id := by
  induction hbelow with
  | child hchild' => exact .step (.child hchild) htag hchild'
  | step _ htag' hchild' ih => exact .step ih htag' hchild'

theorem filter_children (hnone : ∀ other ∈ ignored, ¬ fragment.Below id other) :
    (fragment.children id).filter (· ∉ ignored) = fragment.children id :=
  List.filter_eq_self.mpr fun child hchild => decide_eq_true fun hmem =>
    hnone child hmem (.child hchild)

/-- Taking out nodes that are not below an element leaves its written form as it is. -/
theorem nodeHtml_without (depth : Nat) (parentTag : String)
    (hnone : fragment.tag? id ≠ none → ∀ other ∈ ignored, ¬ fragment.Below id other) :
    (fragment.without ignored).nodeHtml depth parentTag id =
      fragment.nodeHtml depth parentTag id := by
  induction depth generalizing parentTag id with
  | zero => rfl
  | succ depth ih =>
      cases hnode : fragment.get? id with
      | none => simp [nodeHtml, hnode]
      | some node =>
          cases hkind : node.kind with
          | text content => simp [nodeHtml, hnode, hkind]
          | comment content => simp [nodeHtml, hnode, hkind]
          | element tag attributes =>
              have htag := tag?_ne_none_of_get hnode hkind
              have hkept := filter_children (hnone htag)
              have hsame : ∀ child ∈ fragment.children id,
                  (fragment.without ignored).nodeHtml depth tag child =
                    fragment.nodeHtml depth tag child := fun child hmem =>
                ih tag fun hchild other hmem' hbelow =>
                  hnone htag other hmem' (.of_child hchild hmem hbelow)
              rw [children_eq_of_get hnode] at hkept hsame
              simp only [nodeHtml, get?_without, hnode, Option.map_some, hkind, hkept]
              rw [List.flatMap_congr hsame]

theorem innerHtml_without (hnone : ∀ other ∈ ignored, ¬ fragment.Below id other) :
    (fragment.without ignored).innerHtml id = fragment.innerHtml id := by
  simp only [innerHtml, children_without, filter_children hnone, size_without, tag_without]
  exact List.flatMap_congr fun child hmem => nodeHtml_without _ _ fun hchild other hmem' hbelow =>
    hnone other hmem' (.of_child hchild hmem hbelow)

end Fragment

/-! ## Origins that differ in their place only -/

/-- Whether two origins say the same of what is written, though not at the same place: their
    starts are as far apart as the characters that had been added before. -/
structure MappedOrigin.Alike (a b : MappedOrigin) : Prop where
  target : a.target = b.target
  action : a.origin.action = b.origin.action
  length : a.origin.length = b.origin.length
  offsets : a.origin.offsets = b.origin.offsets
  value : a.origin.value = b.origin.value
  tracking : a.origin.tracking = b.origin.tracking
  place : a.origin.start.toInt64 - a.origin.extra = b.origin.start.toInt64 - b.origin.extra

/-- Where the differences are signed words, they are the same over the integers. -/
theorem MappedOrigin.Alike.place_toInt {a b : MappedOrigin} (h : a.Alike b)
    (hfirst : Origin.isSigned (a.origin.start.toNat - a.origin.extra.toInt) = true)
    (hsecond : Origin.isSigned (b.origin.start.toNat - b.origin.extra.toInt) = true) :
    (a.origin.start.toNat : Int) - a.origin.extra.toInt =
      b.origin.start.toNat - b.origin.extra.toInt := by
  have hword : ∀ origin : Origin, Origin.isSigned (origin.start.toNat - origin.extra.toInt) = true →
      (origin.start.toInt64 - origin.extra).toInt = origin.start.toNat - origin.extra.toInt := by
    intro origin hsigned
    have hsame : origin.start.toInt64 - origin.extra =
        Int64.ofInt (origin.start.toNat - origin.extra.toInt) := by
      rw [Int64.ofInt_sub, Int64.ofInt_toInt, Int64.ofInt_eq_ofNat, ← UInt64.toInt64_ofNat',
        UInt64.ofNat_toNat]
    obtain ⟨hlow, hhigh⟩ := Bool.and_eq_true_iff.mp hsigned
    rw [hsame]
    exact Int64.toInt_ofInt_of_le (of_decide_eq_true hlow)
      (Int.lt_of_le_sub_one (of_decide_eq_true hhigh))
  rw [← hword a.origin hfirst, ← hword b.origin hsecond, h.place]

/-- A character leads to the same place from either origin. -/
theorem MappedOrigin.Alike.assignedIndex {a b : MappedOrigin} (h : a.Alike b) (k : Nat) :
    a.origin.assignedIndex (a.origin.start.toNat + k) =
      b.origin.assignedIndex (b.origin.start.toNat + k) := by
  have hoffset : a.origin.offsetAt k = b.origin.offsetAt k := by
    rw [Origin.offsetAt, Origin.offsetAt, h.offsets]
  rw [Origin.assignedIndex_add, Origin.assignedIndex_add, h.place, hoffset]

namespace Mapper

/-- Whether a cursor stands at the same assigned position as another, and has written no more. -/
structure Beside (a b : Cursor) : Prop where
  assigned : a.assigned = b.assigned
  written : b.written ≤ a.written

/-- Whether two stretches that set out beside each other come out beside each other, and yield
    origins that are alike, one for one. -/
def Matches (first second : Walk) : Prop :=
  ∀ a b, Beside a b → Beside (first a).1 (second b).1 ∧
    List.Forall₂ MappedOrigin.Alike (first a).2.origins (second b).2.origins

variable {build : Build}

/-- The mapper of the same assignment over the tree without the ignored nodes. -/
def pruned (mapper : Mapper build) (label : Option (String × List Char)) : Mapper build :=
  { mapper with
    fragment := mapper.fragment.without mapper.ignored
    ignored := []
    label }

section Steps

variable (mapper : Mapper build) (label : Option (String × List Char))
  {first second first' second' : Walk}

theorem alike_origin (target : Target) (action : Action) {start start' : Nat} (length : Nat)
    {extra extra' : Int} (offsets : Option (List Int))
    (hplace : start - extra = start' - extra') :
    (mapper.origin target action start length extra offsets).Alike
      ((mapper.pruned label).origin target action start' length extra' offsets) where
  target := rfl
  action := rfl
  length := rfl
  offsets := rfl
  value := rfl
  tracking := rfl
  place := by
    simp only [origin, UInt64.toInt64_ofNat', ← Int64.ofInt_eq_ofNat, ← Int64.ofInt_sub, hplace]

theorem matches_stay : Matches .stay .stay := fun _ _ h => ⟨h, .nil⟩

theorem Matches.andThen (hfirst : Matches first first') (hsecond : Matches second second') :
    Matches (first.andThen second) (first'.andThen second') := by
  intro a b h
  obtain ⟨hmoved, hyielded⟩ := hfirst a b h
  obtain ⟨hmoved', hyielded'⟩ := hsecond _ _ hmoved
  exact ⟨hmoved', List.rel_append hyielded hyielded'⟩

/-- Stretches that stay where they are and yield nothing. -/
theorem matches_still (hfirst : ∀ cursor, (first cursor).1 = cursor ∧ (first cursor).2.origins = [])
    (hsecond : ∀ cursor, (second cursor).1 = cursor ∧ (second cursor).2.origins = []) :
    Matches first second := by
  intro a b h
  rw [(hfirst a).1, (hsecond b).1, (hfirst a).2, (hsecond b).2]
  exact ⟨h, .nil⟩

theorem matches_advance (count : Nat) : Matches (.advance count) (.advance count) := by
  intro a b h
  have hassigned := h.assigned
  refine ⟨⟨?_, Nat.add_le_add_right h.written count⟩, .nil⟩
  simp only [Walk.advance, Cursor.assigned] at hassigned ⊢
  omega

/-- Whether a stretch passes over so many characters that were not assigned. -/
def PassesOver (walk : Walk) (count : Nat) : Prop :=
  ∀ cursor, (walk cursor).1 = (Walk.skip count cursor).1 ∧ (walk cursor).2.origins = []

/-- Passing over characters that were not assigned is as good as staying. -/
theorem Matches.skip {walk : Walk} {count : Nat} (h : Matches first second)
    (hpasses : PassesOver walk count) : Matches (walk.andThen first) second := by
  intro a b hbeside
  obtain ⟨hmoved, hquiet⟩ := hpasses a
  have hassigned := hbeside.assigned
  have hskipped : Beside (walk a).1 b := by
    rw [hmoved]
    refine ⟨?_, Nat.le_add_right_of_le hbeside.written⟩
    simp only [Walk.skip, Cursor.assigned] at hassigned ⊢
    omega
  obtain ⟨hmatched, hyielded⟩ := h _ b hskipped
  refine ⟨hmatched, ?_⟩
  show List.Forall₂ _ ((walk a).2.origins ++ _) _
  rwa [hquiet, List.nil_append]

theorem matches_emit (target : Target) (action : Action) (length : Nat) :
    Matches (mapper.emit target action length) ((mapper.pruned label).emit target action length) :=
  fun _ _ h => ⟨h, .cons (mapper.alike_origin label target action length none h.assigned) .nil⟩

theorem matches_span (target : Target) (action : Action) (length : Nat) :
    Matches (mapper.span target action length) ((mapper.pruned label).span target action length) :=
  (mapper.matches_emit label target action length).andThen (matches_advance length)

theorem matches_text (id : NodeId) (parentTag content : String) :
    Matches (mapper.text id parentTag content)
      ((mapper.pruned label).text id parentTag content) := by
  intro a b h
  have hassigned := h.assigned
  have hwritten := h.written
  have hsource : (mapper.pruned label).source = mapper.source := rfl
  simp only [text, hsource, ← hassigned]
  refine ⟨⟨?_, ?_⟩, .cons (mapper.alike_origin label _ _ _ _ hassigned) .nil⟩
  · simp only [Cursor.assigned] at hassigned ⊢
    omega
  · exact Nat.add_le_add_right hwritten _

theorem matches_comment (id : NodeId) (content : String) :
    Matches (mapper.comment id content) ((mapper.pruned label).comment id content) :=
  (mapper.matches_span label _ _ 4).andThen ((mapper.matches_span label _ _ content.length).andThen
    ((mapper.matches_span label _ _ 3).andThen matches_stay))

theorem matches_attribute (id : NodeId) (tag : String) (attr : Attribute) :
    Matches (mapper.attributeSpans id tag attr)
      ((mapper.pruned label).attributeSpans id tag attr) := by
  intro a b h
  have hassigned := h.assigned
  have hwritten := h.written
  have hspelling : (mapper.pruned label).spelling tag attr b.assigned =
      mapper.spelling tag attr a.assigned := by
    rw [hassigned]
    rfl
  simp only [attributeSpans, hspelling]
  simp only [Cursor.assigned] at hassigned
  refine ⟨⟨?_, ?_⟩, .cons (mapper.alike_origin label _ _ _ _ hassigned)
    (.cons (mapper.alike_origin label _ _ _ _ ?_) .nil)⟩
  · simp only [Cursor.assigned]
    omega
  · simp only
    omega
  · omega

/-- Stretches that count characters as added or dropped by what they read at the position. -/
theorem matches_add {first second : Cursor → Int} (h : ∀ a b, Beside a b → first a = second b)
    (sums sums' : Cursor → List Int) :
    Matches (fun cursor => Walk.add (first cursor) (sums cursor) cursor)
      (fun cursor => Walk.add (second cursor) (sums' cursor) cursor) := by
  intro a b hbeside
  have hassigned := hbeside.assigned
  refine ⟨⟨?_, hbeside.written⟩, .nil⟩
  simp only [Walk.add, Cursor.assigned, h a b hbeside] at hassigned ⊢
  omega

theorem matches_tagBlanks : Matches mapper.tagBlanks (mapper.pruned label).tagBlanks := by
  refine matches_add (fun a b h => ?_) _ _
  rw [h.assigned]
  rfl

theorem matches_needlessEnd (tag : String) :
    Matches (mapper.needlessEnd tag) ((mapper.pruned label).needlessEnd tag) := by
  refine matches_add (fun a b h => ?_) _ _
  rw [h.assigned]
  rfl

theorem matches_selfClosed (length : Nat) :
    Matches (mapper.selfClosed length) ((mapper.pruned label).selfClosed length) := by
  refine matches_add (fun a b h => ?_) _ _
  rw [h.assigned]
  rfl

/-- Stretches for the items of a list, and for those of them that are not ignored. -/
theorem matches_all {items ignored : List NodeId} {walks walks' : NodeId → Walk}
    (hskip : ∀ item ∈ items, item ∈ ignored → ∃ count, PassesOver (walks item) count)
    (h : ∀ item ∈ items, item ∉ ignored → Matches (walks item) (walks' item)) :
    Matches (.all (items.map walks)) (.all ((items.filter (· ∉ ignored)).map walks')) := by
  induction items with
  | nil => exact matches_stay
  | cons item items ih =>
      have hrest := ih (fun other hmem => hskip other (List.mem_cons_of_mem item hmem))
        fun other hmem => h other (List.mem_cons_of_mem item hmem)
      by_cases hmem : item ∈ ignored
      · obtain ⟨count, hpasses⟩ := hskip item List.mem_cons_self hmem
        rw [List.filter_cons_of_neg (by simpa using hmem)]
        exact hrest.skip hpasses
      · rw [List.filter_cons_of_pos (by simpa using hmem)]
        exact (h item List.mem_cons_self hmem).andThen hrest

theorem passesOver_node {mapper : Mapper build} {id : NodeId} (hmem : id ∈ mapper.ignored)
    (depth : Nat) (parentTag : String) :
    ∃ count, PassesOver (mapper.node depth parentTag id) count := by
  cases depth with
  | zero => exact ⟨0, fun cursor => ⟨by simp only [node, Walk.stay, Walk.skip]; simp, rfl⟩⟩
  | succ depth =>
      have hskip : mapper.node (depth + 1) parentTag id =
          .skip (mapper.fragment.outerHtml id).length := by simp only [node, if_pos hmem]
      rw [hskip]
      exact ⟨_, fun cursor => ⟨rfl, rfl⟩⟩

theorem matches_attributes (id : NodeId) (tag : String) (attributes : List Attribute) :
    Matches (.all (attributes.map (mapper.attributeSpans id tag)))
      (.all (attributes.map ((mapper.pruned label).attributeSpans id tag))) :=
  Walk.all_related matches_stay Matches.andThen fun attr _ =>
    mapper.matches_attribute label id tag attr

theorem matches_opening (id : NodeId) (tag : String) (attributes : List Attribute) :
    Matches (mapper.opening id tag attributes)
      ((mapper.pruned label).opening id tag attributes) := by
  have hneedless : Matches (if mapper.closingTags tag then .stay else mapper.needlessEnd tag)
      (if mapper.closingTags tag then .stay else (mapper.pruned label).needlessEnd tag) := by
    split
    · exact matches_stay
    · exact mapper.matches_needlessEnd label tag
  exact (mapper.matches_span label _ _ _).andThen ((mapper.matches_attributes label id tag
    attributes).andThen ((mapper.matches_tagBlanks label).andThen (hneedless.andThen
      ((mapper.matches_span label _ _ 1).andThen matches_stay))))

theorem matches_closing (id : NodeId) (tag : String) :
    Matches (mapper.closing id tag) ((mapper.pruned label).closing id tag) :=
  (mapper.matches_span label _ _ _).andThen (mapper.matches_selfClosed label _)

variable {mapper}

/-- A node that is not ignored. What is passed over as the content of an inline frame must be the
    same without the ignored nodes. -/
theorem matches_node {container : NodeId}
    (hframes : ∀ frame, mapper.fragment.Below container frame →
      mapper.fragment.tag? frame = some "iframe" → ∀ id ∈ mapper.ignored,
        ¬ mapper.fragment.Below frame id) (depth : Nat) (parentTag : String) {id : NodeId}
    (hbelow : mapper.fragment.Below container id) (hid : id ∉ mapper.ignored) :
    Matches (mapper.node depth parentTag id) ((mapper.pruned label).node depth parentTag id) := by
  have hignored : (mapper.pruned label).ignored = [] := rfl
  have hfragment : (mapper.pruned label).fragment = mapper.fragment.without mapper.ignored := rfl
  have hclosing : (mapper.pruned label).closingTags = mapper.closingTags := rfl
  induction depth generalizing parentTag id with
  | zero => exact matches_stay
  | succ depth ih =>
      simp only [node, if_neg hid, hignored, hfragment, hclosing, Fragment.get?_without,
        List.not_mem_nil, if_false]
      cases hnode : mapper.fragment.get? id with
      | none => exact matches_stay
      | some node =>
          simp only [Option.map_some]
          cases hkind : node.kind with
          | text content => exact mapper.matches_text label id parentTag content
          | comment content => exact mapper.matches_comment label id content
          | element tag attributes =>
              have htag := Fragment.tag?_ne_none_of_get hnode hkind
              have hchild : ∀ child ∈ node.children, mapper.fragment.Below container child := by
                intro child hmem
                rw [← Fragment.children_eq_of_get hnode] at hmem
                exact .step hbelow htag hmem
              have hchildren : Matches (.all (node.children.map (mapper.node depth tag)))
                  (.all ((node.children.filter (· ∉ mapper.ignored)).map
                    ((mapper.pruned label).node depth tag))) := by
                exact matches_all (fun child _ hmem' => passesOver_node hmem' depth tag)
                  fun child hmem hmem' => ih tag (hchild child hmem) hmem'
              have hinside : Matches
                  (if tag = "iframe" then .advance (mapper.fragment.innerHtml id).length
                    else (mapper.mark id).andThen
                      (.all (node.children.map (mapper.node depth tag))))
                  (if tag = "iframe" then
                      .advance ((mapper.fragment.without mapper.ignored).innerHtml id).length
                    else ((mapper.pruned label).mark id).andThen
                      (.all ((node.children.filter (· ∉ mapper.ignored)).map
                        ((mapper.pruned label).node depth tag)))) := by
                split
                · rename_i hframe
                  have hinner := Fragment.innerHtml_without (hframes id hbelow
                    (by rw [Fragment.tag?_of_get hnode hkind, hframe]))
                  rw [hinner]
                  exact matches_advance _
                · exact (mapper.matches_emit label _ _ 0).andThen hchildren
              have hunclosed : Matches
                  (if node.children.isEmpty then .stay
                   else .mismatch build (.childrenOfUnclosed tag))
                  (if (node.children.filter (· ∉ mapper.ignored)).isEmpty then .stay
                   else .mismatch build (.childrenOfUnclosed tag)) := by
                refine matches_still ?_ ?_ <;> split <;> exact fun _ => ⟨rfl, rfl⟩
              refine (mapper.matches_opening label id tag attributes).andThen ?_
              split
              · exact hinside.andThen ((mapper.matches_closing label id tag).andThen matches_stay)
              · exact hunclosed

theorem matches_content {container : NodeId}
    (hframes : ∀ frame, mapper.fragment.Below container frame →
      mapper.fragment.tag? frame = some "iframe" → ∀ id ∈ mapper.ignored,
        ¬ mapper.fragment.Below frame id) :
    Matches (mapper.content container) ((mapper.pruned label).content container) := by
  have hfragment : (mapper.pruned label).fragment = mapper.fragment.without mapper.ignored := rfl
  have hchildren : Matches
      (.all ((mapper.fragment.children container).map
        (mapper.node (mapper.fragment.size + 1) (mapper.fragment.tag container))))
      (.all (((mapper.fragment.children container).filter (· ∉ mapper.ignored)).map
        ((mapper.pruned label).node (mapper.fragment.size + 1)
          (mapper.fragment.tag container)))) :=
    matches_all (fun child _ hmem => passesOver_node hmem _ _)
      fun child hchild hmem => matches_node label hframes _ _ (.child hchild) hmem
  simp only [content, hfragment, Fragment.children_without, Fragment.size_without,
    Fragment.tag_without]
  exact (mapper.matches_emit label _ _ 0).andThen hchildren

end Steps

end Mapper

/-! ## Looking up a character on either side -/

namespace Mapper

variable {mapper : Mapper build}

/-- Every walk lays some pieces. -/
theorem composes_lays (mapper : Mapper build) :
    mapper.Composes fun walk => ∃ pieces, mapper.Lays walk pieces where
  stay := ⟨_, lays_stay⟩
  andThen := fun ⟨_, hfirst⟩ ⟨_, hsecond⟩ => ⟨_, hfirst.andThen hsecond⟩
  skip count := by
    have hlays : mapper.Lays _ _ := lays_skip (List.replicate count ' ')
    rw [List.length_replicate] at hlays
    exact ⟨_, hlays⟩
  advance count := by
    have hlays : mapper.Lays _ _ := lays_advance (List.replicate count ' ')
    rw [List.length_replicate] at hlays
    exact ⟨_, hlays⟩
  mismatch cause := ⟨_, lays_mismatch cause⟩
  mark id := ⟨_, lays_emit _ _⟩
  text id parentTag content := ⟨_, lays_text id parentTag content⟩
  comment id content := ⟨_, lays_comment id content⟩
  opening _ _ := ⟨_, lays_opening _ _ _⟩
  closing id tag := ⟨_, lays_closing id tag⟩

/-- The spans that a walk yields are in order and end within a word, if what it writes does. -/
theorem before_content {container : NodeId} {cursor : Cursor}
    (hsize : (mapper.content container cursor).1.written < UInt64.size) :
    ((mapper.content container cursor).2.origins.map MappedOrigin.origin).Pairwise Origin.Before ∧
      ∀ mapped ∈ (mapper.content container cursor).2.origins,
        mapped.origin.start.toNat + mapped.origin.length.toNat < UInt64.size := by
  obtain ⟨pieces, hlays⟩ := mapper.composes_lays.content container
  obtain ⟨hwritten, hyields⟩ := hlays cursor
  exact before_of_yields hyields (hwritten ▸ hsize)

end Mapper

theorem forall₂_of_mem {R S : α → β → Prop} {as : List α} {bs : List β}
    (h : List.Forall₂ R as bs) (hs : ∀ a ∈ as, ∀ b ∈ bs, R a b → S a b) : List.Forall₂ S as bs := by
  induction h with
  | nil => exact .nil
  | cons hab _ ih =>
      refine .cons (hs _ List.mem_cons_self _ List.mem_cons_self hab) (ih fun a ha b hb => ?_)
      exact hs a (List.mem_cons_of_mem _ ha) b (List.mem_cons_of_mem _ hb)

/-- Among origins in order that end within a word, a character of one leads where that says. -/
theorem originAt_add {origins : List MappedOrigin} {mapped : MappedOrigin} {k : Nat}
    (hsorted : (origins.map MappedOrigin.origin).Pairwise Origin.Before) (hmem : mapped ∈ origins)
    (hword : mapped.origin.start.toNat + mapped.origin.length.toNat < UInt64.size)
    (hlt : k < mapped.origin.length.toNat) :
    ((Mapping.ofMapped origins).originAt (mapped.origin.start.toNat + k)).map
      ResolvedOrigin.charIndex = mapped.origin.assignedIndex (mapped.origin.start.toNat + k) := by
  have hcovers := Mapping.covers_of_lt hword (Nat.le_add_right _ k) (Nat.add_lt_add_left hlt _)
  rw [Mapping.ofMapped, Mapping.originAt_of_covers hsorted (List.mem_map_of_mem hmem) hcovers,
    Option.map_map]
  exact Option.map_id'

/-- Less is written without the ignored nodes. -/
theorem written_walked_without {fragment : Fragment} {container : NodeId} {options : MapOptions}
    (hframes : ∀ frame, fragment.Below container frame → fragment.tag? frame = some "iframe" →
      ∀ id ∈ options.ignored, ¬ fragment.Below frame id)
    (closingTags : ClosingTags) (assigned : Operand RecordId) :
    (Mapper.walked closingTags (fragment.without options.ignored) container assigned
        { options with ignored := [] }).written ≤
      (Mapper.walked closingTags fragment container assigned options).written := by
  let mapper := Mapper.ofAssignment .checked closingTags fragment container assigned options
  let cursor : Cursor := ⟨0, options.initialExtra.toInt⟩
  exact (@Mapper.matches_content .checked mapper _ container hframes cursor cursor
    ⟨rfl, Nat.le_refl _⟩).1.written

/-- Ignored nodes leave no trace in the origins of a mapping. Those are alike, one for one, the
    origins of the tree without the ignored nodes: their starts less the characters added before are
    the same words, and the same numbers wherever those are words, and each of their characters
    leads to the same place. If the written form fits in a word, looking up such a character finds
    that place on either side. Only an inline frame, which is passed over as it is written, must not
    hold ignored nodes. On either side there is no mapping only if the build checks its sums and one
    of those of that side leaves its word, which none does where the strings are not too long. -/
theorem map_ignored {fragment : Fragment} {container : NodeId} (hbuilt : fragment.Built)
    (hproper : fragment.Proper container) (build : Build) (closingTags : ClosingTags)
    (assigned : Operand RecordId) (options : MapOptions)
    (hframes : ∀ frame, fragment.Below container frame → fragment.tag? frame = some "iframe" →
      ∀ id ∈ options.ignored, ¬ fragment.Below frame id) :
    let without := fragment.without options.ignored
    let none' := { options with ignored := [] }
    (map? build closingTags fragment container assigned options = none ↔
      build = .checked ∧
        (mapIn build closingTags fragment container assigned options).overflows = true) ∧
    (map? build closingTags without container assigned none' = none ↔
      build = .checked ∧
        (mapIn build closingTags without container assigned none').overflows = true) ∧
    (closingTags.Remembers .byVoidTags →
      max (-options.initialExtra.toInt) (assignedText assigned).length +
          (fragment.innerHtml container).length < lengthLimit →
        options.initialExtra.toInt + (fragment.innerHtml container).length < lengthLimit →
          map? build closingTags fragment container assigned options ≠ none ∧
            map? build closingTags without container assigned none' ≠ none) ∧
    ∀ report pruned,
      map? build closingTags fragment container assigned options = some report →
      map? build closingTags without container assigned none' = some pruned →
      List.Forall₂ (fun a b => a.Alike b ∧
        (Origin.isSigned (a.origin.start.toNat - a.origin.extra.toInt) = true →
          Origin.isSigned (b.origin.start.toNat - b.origin.extra.toInt) = true →
            (a.origin.start.toNat : Int) - a.origin.extra.toInt =
              b.origin.start.toNat - b.origin.extra.toInt) ∧
        ∀ k, a.origin.assignedIndex (a.origin.start.toNat + k) =
          b.origin.assignedIndex (b.origin.start.toNat + k)) report.origins pruned.origins ∧
      (closingTags.Remembers .byVoidTags →
        (fragment.innerHtml container).length < UInt64.size →
          List.Forall₂ (fun a b => ∀ k < a.origin.length.toNat,
            ((Mapping.ofMapped report.origins).originAt (a.origin.start.toNat + k)).map
                ResolvedOrigin.charIndex =
              ((Mapping.ofMapped pruned.origins).originAt (b.origin.start.toNat + k)).map
                ResolvedOrigin.charIndex) report.origins pruned.origins) := by
  intro without none'
  refine ⟨map?_eq_none_iff, map?_eq_none_iff, fun hremembers hroom hextra =>
    ⟨fun h => ?_, fun h => ?_⟩, ?_⟩
  · rw [map?_of_room hbuilt hproper hremembers hroom hextra build] at h
    cases h
  · have hwritten := written_walked_without hframes closingTags assigned
    rw [written_walked hbuilt hproper hremembers] at hwritten
    have hfits := @not_overflows_of_room closingTags without container assigned none'
      (by simp only [none', without]; omega) (by simp only [none', without]; omega) build
    rw [(map?_eq_none_iff.mp h).2] at hfits
    cases hfits
  intro report pruned hreport hprunedReport
  obtain rfl := eq_of_map?_eq_some hreport
  obtain rfl := eq_of_map?_eq_some hprunedReport
  let mapper := Mapper.ofAssignment build closingTags fragment container assigned options
  let cursor : Cursor := ⟨0, options.initialExtra.toInt⟩
  obtain ⟨label, hlabel⟩ : ∃ label, Mapper.ofAssignment build closingTags without container
    assigned none' = mapper.pruned label := ⟨_, rfl⟩
  have hpruned : (mapIn build closingTags without container assigned none').origins =
      ((mapper.pruned label).content container cursor).2.origins := by
    rw [← hlabel]
    exact Mapper.origins_mapIn ..
  rw [Mapper.origins_mapIn, hpruned]
  obtain ⟨hbeside, halike⟩ := @Mapper.matches_content build mapper label container hframes cursor
    cursor ⟨rfl, Nat.le_refl _⟩
  refine ⟨halike.imp fun a b h => ⟨h, h.place_toInt, h.assignedIndex⟩, fun hremembers hsize => ?_⟩
  have hlays : mapper.Lays (mapper.content container)
      (fragment.contentPieces options.ignored container) :=
    Mapper.lays_content hbuilt hremembers.eq_not_isVoid hproper
  have hwritten : (mapper.content container cursor).1.written < UInt64.size := by
    rw [(hlays cursor).1, Fragment.written_contentPieces options.ignored hbuilt hproper,
      Nat.zero_add]
    exact hsize
  obtain ⟨hordered, hwords⟩ := Mapper.before_content hwritten
  obtain ⟨hordered', hwords'⟩ :=
    Mapper.before_content (Nat.lt_of_le_of_lt hbeside.written hwritten)
  refine forall₂_of_mem halike fun a ha b hb h k hlt => ?_
  rw [originAt_add hordered ha (hwords a ha) hlt,
    originAt_add hordered' hb (hwords' b hb) (h.length ▸ hlt), h.assignedIndex k]

/-- A text and a paragraph, each with something in front that was not assigned, and a frame. -/
def decorated : Fragment :=
  (Fragment.new "div").appendElement 0 "b" []
    |>.appendText 1 "x"
    |>.appendText 0 "a&b"
    |>.appendElement 0 "p" [⟨"id", "q"⟩]
    |>.appendText 4 "extra"
    |>.appendText 4 "y"
    |>.appendElement 0 "iframe" []
    |>.appendText 7 "z"

theorem decorated_built : decorated.Built :=
  .text (.element (.text (.text (.element (.text (.text (.element (.new _) _ _ _) _ _) _ _) _ _ _)
    _ _) _ _) _ _ _) _ _

theorem eq_of_below_frame {id : NodeId} (hbelow : decorated.Below 7 id) : id = 8 := by
  have hchildren : decorated.children 7 = [8] := by decide
  induction hbelow with
  | child hchild =>
      rw [hchildren] at hchild
      exact List.mem_singleton.mp hchild
  | step _ htag _ ih =>
      rw [ih] at htag
      exact absurd rfl htag

theorem decorated_frames : ∀ frame, decorated.Below 0 frame →
    decorated.tag? frame = some "iframe" → ∀ id ∈ [1, 5], ¬ decorated.Below frame id := by
  intro frame hbelow htag id hmem hinside
  have honly : ∀ id < decorated.size, decorated.tag? id = some "iframe" → id = 7 := by
    decide +kernel
  obtain rfl : frame = 7 := honly frame (decorated_built.lt_of_below hbelow) htag
  obtain rfl := eq_of_below_frame hinside
  exact absurd hmem (by decide)

/-- The starts of the origins are apart by what is passed over before them. From far away, only the
    count of the characters that are passed over leaves its word. -/
theorem map_ignored_decorated :
    let assigned : Operand RecordId := { value := .str "a&amp;b<p id=q>y</p><iframe>z</iframe>" }
    let mapping := map? .checked ClosingTags.byVoidTags.folded
    let far : Int64 := 9223372036854775797
    mapping decorated 0 assigned { ignored := [1, 5], initialExtra := far } = none ∧
    mapping (decorated.without [1, 5]) 0 assigned { initialExtra := far } ≠ none ∧
    ∃ report pruned, mapping decorated 0 assigned { ignored := [1, 5] } = some report ∧
      mapping (decorated.without [1, 5]) 0 assigned {} = some pruned ∧
      List.Forall₂ MappedOrigin.Alike report.origins pruned.origins ∧
      List.Forall₂ (fun a b => ∀ k < a.origin.length.toNat,
        ((Mapping.ofMapped report.origins).originAt (a.origin.start.toNat + k)).map
            ResolvedOrigin.charIndex =
          ((Mapping.ofMapped pruned.origins).originAt (b.origin.start.toNat + k)).map
            ResolvedOrigin.charIndex) report.origins pruned.origins ∧
      report.origins.map (·.origin.start.toNat) =
        [0, 8, 15, 17, 20, 24, 25, 30, 31, 35, 42, 44] ∧
      pruned.origins.map (·.origin.start.toNat) = [0, 0, 7, 9, 12, 16, 17, 17, 18, 22, 29, 31] := by
  intro assigned mapping far
  have hproper : decorated.Proper 0 := by decide
  have hremembers := ClosingTags.folded_remembers ClosingTags.byVoidTags
  have hignored := map_ignored decorated_built hproper .checked ClosingTags.byVoidTags.folded
    assigned
  obtain ⟨hnone, hnone', -, -⟩ := hignored { ignored := [1, 5], initialExtra := far }
    decorated_frames
  obtain ⟨-, -, hroom, halike⟩ := hignored { ignored := [1, 5] } decorated_frames
  obtain ⟨hsome, hsome'⟩ := hroom hremembers (by decide +kernel) (by decide +kernel)
  obtain ⟨report, hreport⟩ := Option.ne_none_iff_exists'.mp hsome
  obtain ⟨pruned, hpruned⟩ := Option.ne_none_iff_exists'.mp hsome'
  obtain ⟨horigins, hlookups⟩ := halike report pruned hreport hpruned
  refine ⟨hnone.mpr ⟨rfl, by decide +kernel⟩, fun h => ?_, report, pruned, hreport, hpruned,
    horigins.imp fun _ _ h => h.1, hlookups hremembers (by decide +kernel), ?_, ?_⟩
  · exact absurd (hnone'.mp h).2 (by decide +kernel)
  · rw [eq_of_map?_eq_some hreport]
    decide +kernel
  · rw [eq_of_map?_eq_some hpruned]
    decide +kernel

end Provenance.Markup
