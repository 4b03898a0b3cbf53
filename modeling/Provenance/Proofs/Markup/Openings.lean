import Provenance.Proofs.Markup.Leads
import Provenance.Proofs.Markup.Onward

/-! # Where opening tags are read

A walk yields one origin for the beginning of every opening tag, and reads the rest of the tag from
there on. The origin says at which place of the assigned string the walk stood: its words cannot
have wrapped around, as a walk only moves forward and passes the end of the assigned string only by
what it writes.
-/

namespace Provenance.Markup

namespace Mapper

/-- Whether a walk from a cursor on contains some part from another cursor on. -/
structure Passes (mapper : Mapper .checked) (walk : Walk) (cursor : Cursor) (part : Walk)
    (start : Cursor) : Prop where
  before : mapper.Onward cursor start
  after : mapper.Onward (part start).1 (walk cursor).1
  origins : ∀ mapped ∈ (part start).2.origins, mapped ∈ (walk cursor).2.origins

variable {mapper : Mapper .checked} {first second walk part : Walk} {cursor start : Cursor}

theorem Passes.refl (mapper : Mapper .checked) (walk : Walk) (cursor : Cursor) :
    mapper.Passes walk cursor walk cursor :=
  ⟨.refl mapper cursor, .refl mapper _, fun _ hmem => hmem⟩

theorem Passes.earlier (h : mapper.Passes first cursor part start)
    (hsecond : mapper.Advances second) : mapper.Passes (first.andThen second) cursor part start :=
  ⟨h.before, h.after.trans (hsecond _), fun mapped hmem =>
    List.mem_append_left _ (h.origins mapped hmem)⟩

theorem Passes.later (hfirst : mapper.Advances first)
    (h : mapper.Passes second (first cursor).1 part start) :
    mapper.Passes (first.andThen second) cursor part start :=
  ⟨(hfirst cursor).trans h.before, h.after,
    fun mapped hmem => List.mem_append_right _ (h.origins mapped hmem)⟩

/-- Whether a stretch moves forward and reads opening tags where it yields their first origins. -/
structure Opens (mapper : Mapper .checked) (walk : Walk) : Prop where
  advances : mapper.Advances walk
  opened : ∀ cursor, ∀ mapped ∈ (walk cursor).2.origins,
    mapped.origin.action = .openingTagStart →
      ∃ id node tag attributes start, mapper.fragment.get? id = some node ∧
        node.kind = .element tag attributes ∧
        mapped = mapper.origin (.node id) .openingTagStart start.written (1 + tag.length)
          start.extra none ∧
        mapper.Passes walk cursor (mapper.opening id tag attributes) start

theorem Opens.andThen (hfirst : mapper.Opens first) (hsecond : mapper.Opens second) :
    mapper.Opens (first.andThen second) where
  advances := hfirst.advances.andThen hsecond.advances
  opened cursor mapped hmem haction := by
    rcases List.mem_append.mp hmem with hmem | hmem
    · obtain ⟨id, node, tag, attributes, start, hnode, hkind, heq, hpasses⟩ :=
        hfirst.opened cursor mapped hmem haction
      exact ⟨id, node, tag, attributes, start, hnode, hkind, heq, hpasses.earlier hsecond.advances⟩
    · obtain ⟨id, node, tag, attributes, start, hnode, hkind, heq, hpasses⟩ :=
        hsecond.opened _ mapped hmem haction
      exact ⟨id, node, tag, attributes, start, hnode, hkind, heq, hpasses.later hfirst.advances⟩

/-- A stretch without the first origin of an opening tag. -/
def Plain (walk : Walk) : Prop :=
  ∀ cursor, ∀ mapped ∈ (walk cursor).2.origins, mapped.origin.action ≠ .openingTagStart

theorem Plain.opens (hplain : Plain walk) (hadvances : mapper.Advances walk) : mapper.Opens walk :=
  ⟨hadvances, fun cursor mapped hmem haction => absurd haction (hplain cursor mapped hmem)⟩

theorem Plain.andThen (hfirst : Plain first) (hsecond : Plain second) :
    Plain (first.andThen second) :=
  fun cursor mapped hmem => (List.mem_append.mp hmem).elim (hfirst cursor mapped) (hsecond _ mapped)

theorem plain_of_quiet (hquiet : ∀ cursor, (walk cursor).2.origins = []) : Plain walk := by
  intro cursor mapped hmem
  rw [hquiet cursor] at hmem
  cases hmem

theorem plain_span (mapper : Mapper .checked) (target : Target) (action : Action) (length : Nat)
    (haction : action ≠ .openingTagStart) : Plain (mapper.span target action length) := by
  intro cursor mapped hmem
  rw [List.mem_singleton.mp hmem]
  exact haction

theorem plain_stay : Plain .stay := plain_of_quiet fun _ => rfl

theorem plain_tagBlanks (mapper : Mapper .checked) : Plain mapper.tagBlanks :=
  plain_of_quiet fun _ => rfl

theorem plain_attribute (mapper : Mapper .checked) (id : NodeId) (tag : String) (attr : Attribute) :
    Plain (mapper.attributeSpans id tag attr) := by
  intro cursor mapped hmem
  simp only [attributeSpans, List.mem_cons, List.not_mem_nil, or_false] at hmem
  rcases hmem with rfl | rfl
  · exact Action.noConfusion
  · exact Action.noConfusion

/-- Of the origins of an opening tag, only the first one is for its beginning. -/
theorem opens_opening {id : NodeId} {node : Node} {tag : String} {attributes : List Attribute}
    (hnode : mapper.fragment.get? id = some node) (hkind : node.kind = .element tag attributes) :
    mapper.Opens (mapper.opening id tag attributes) := by
  refine ⟨mapper.advances_opening id tag attributes, fun cursor mapped hmem haction => ?_⟩
  rcases List.mem_append.mp hmem with hmem | hmem
  · exact ⟨id, node, tag, attributes, cursor, hnode, hkind, List.mem_singleton.mp hmem,
      .refl mapper _ _⟩
  · have hattributes : Plain (.all (attributes.map (mapper.attributeSpans id tag))) :=
      Walk.all_of plain_stay Plain.andThen fun attr _ => mapper.plain_attribute id tag attr
    have hneedless : Plain (if mapper.closingTags tag then .stay else mapper.needlessEnd tag) := by
      split
      · exact plain_stay
      · exact plain_of_quiet fun _ => rfl
    have hend : Plain (mapper.span (.node id) .openingTagEnd 1) :=
      mapper.plain_span _ _ 1 (by decide)
    have htail := hattributes.andThen
      (mapper.plain_tagBlanks.andThen (hneedless.andThen (hend.andThen plain_stay)))
    exact absurd haction (htail _ mapped hmem)

/-- Every walk reads opening tags where it yields their first origins. -/
theorem composes_opens (mapper : Mapper .checked) : mapper.Composes mapper.Opens where
  stay := plain_stay.opens mapper.advances_stay
  andThen := Opens.andThen
  skip count := (plain_of_quiet fun _ => rfl).opens (mapper.advances_skip count)
  advance count := (plain_of_quiet fun _ => rfl).opens (mapper.advances_advance count)
  mismatch cause := (plain_of_quiet fun _ => rfl).opens (mapper.advances_mismatch cause)
  mark id := by
    refine Plain.opens (fun cursor mapped hmem => ?_) (mapper.advances_emit _ _ _)
    rw [List.mem_singleton.mp hmem]
    exact Action.noConfusion
  text id parentTag content := by
    refine Plain.opens (fun cursor mapped hmem => ?_) (mapper.advances_text id parentTag content)
    rw [List.mem_singleton.mp hmem]
    exact Action.noConfusion
  comment id content := by
    refine Plain.opens ?_ (mapper.advances_comment id content)
    have hstart : Plain (mapper.span (.node id) .commentStart 4) :=
      mapper.plain_span _ _ 4 (by decide)
    have htext : Plain (mapper.span (.node id) .textValue content.length) :=
      mapper.plain_span _ _ _ (by decide)
    have hend : Plain (mapper.span (.node id) .commentEnd 3) :=
      mapper.plain_span _ _ 3 (by decide)
    exact hstart.andThen (htext.andThen (hend.andThen plain_stay))
  opening := opens_opening
  closing id tag := by
    refine Plain.opens ?_ (mapper.advances_closing id tag)
    have hspan : Plain (mapper.span (.node id) .closingTag (3 + tag.length)) :=
      mapper.plain_span _ _ _ (by decide)
    exact hspan.andThen (plain_of_quiet fun _ => rfl)

end Mapper

/-- What the first origin of an opening tag leads to is where the tag was read. -/
theorem opening_of_mem {fragment : Fragment} {container : NodeId} {closingTags : ClosingTags}
    (hbuilt : fragment.Built) (hproper : fragment.Proper container)
    (hsize : (fragment.innerHtml container).length < lengthLimit)
    (hremembers : closingTags.Remembers .byVoidTags) {assigned : Operand RecordId}
    (hlength : (assignedText assigned).length < lengthLimit) {options : MapOptions}
    {mapped : MappedOrigin}
    (hmem : mapped ∈ (map closingTags fragment container assigned options).origins)
    (haction : mapped.origin.action = .openingTagStart) {place : Nat}
    (hplace : mapped.origin.assignedIndex mapped.origin.start.toNat = some place) :
    let mapper := Mapper.ofAssignment .checked closingTags fragment container assigned options
    ∃ id node tag attributes start, fragment.get? id = some node ∧
      node.kind = .element tag attributes ∧ mapped.target = .node id ∧
      mapped.origin.start.toNat = start.written ∧ start.assigned = (place : Int) ∧
      (mapper.opening id tag attributes start).1.written ≤ (fragment.innerHtml container).length ∧
      ∀ other ∈ (mapper.opening id tag attributes start).2.origins,
        other ∈ (map closingTags fragment container assigned options).origins := by
  intro mapper
  rw [Mapper.origins_map] at hmem ⊢
  let cursor : Cursor := ⟨0, options.initialExtra.toInt⟩
  obtain ⟨id, node, tag, attributes, start, hnode, hkind, rfl, hpasses⟩ :=
    (mapper.composes_opens.content container).opened cursor mapped hmem haction
  have hlays : mapper.Lays _ _ := Mapper.lays_content hbuilt hremembers.eq_not_isVoid hproper
  have hwritten : (mapper.content container cursor).1.written =
      (fragment.innerHtml container).length := by
    rw [(hlays cursor).1, Nat.zero_add]
    exact congrArg List.length (Fragment.written_contentPieces _ hbuilt hproper)
  have hend := hpasses.after.written
  rw [hwritten] at hend
  have hopened := (mapper.advances_opening id tag attributes start).written
  have hwords : lengthLimit < UInt64.size := by decide
  have hword : start.written < UInt64.size := by omega
  have hstart : (mapper.origin (.node id) .openingTagStart start.written (1 + tag.length)
      start.extra none).origin.start.toNat = start.written := UInt64.toNat_ofNat_of_lt' hword
  have hposition : assignedPosition start.written start.extra none
      (start.written - start.written) = start.assigned := by
    rw [assignedPosition_none, Nat.sub_self]
    exact Int.add_zero _
  rw [hstart, mapper.assignedIndex_origin _ _ _ _ (Nat.le_refl _) hword, hposition] at hplace
  obtain ⟨-, hlow, hhigh⟩ := hpasses.before
  have hcursor : cursor.assigned = -options.initialExtra.toInt := Int.zero_sub _
  have hsource : mapper.source.chars.length = (assignedText assigned).length :=
    String.length_toList
  have hextra := options.initialExtra.le_toInt
  have hextra' := options.initialExtra.toInt_lt
  refine ⟨id, node, tag, attributes, start, hnode, hkind, rfl, hstart, ?_, hend, hpasses.origins⟩
  refine Mapper.eq_of_word ?_ ?_ hplace
  · simp only [lengthLimit]
    omega
  · simp only [lengthLimit] at hsize hlength ⊢
    omega

end Provenance.Markup
