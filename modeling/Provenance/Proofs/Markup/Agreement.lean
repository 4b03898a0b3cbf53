import Mathlib.Data.List.Forall2
import Provenance.Markup.Mapper
import Provenance.Proofs.Markup.ClosingTags
import Provenance.Proofs.Markup.Layout
import Provenance.Proofs.Markup.Lookup
import Provenance.Proofs.Markup.Words

/-! # The mapper agrees with the written form

A stretch of the walk lays pieces when it moves the cursor over their text and yields one
origin for each of their spans, wherever the cursor stands and whatever was assigned. Every
stretch of the mapper lays the pieces of its part of the written form, and stretches laid one
after another lay the pieces of both.
-/

namespace Provenance.Markup

/-- What stands in the written form under an origin. -/
def MappedOrigin.textIn (mapped : MappedOrigin) (html : List Char) : List Char :=
  (html.drop mapped.origin.start.toNat).take mapped.origin.length.toNat

variable {build : Build}

namespace Mapper

/-- Whether an origin is one that a mapper yields for a placed span. -/
def Yields (mapper : Mapper build) (placed : Placed) (mapped : MappedOrigin) : Prop :=
  ∃ extra offsets, mapped =
    mapper.origin placed.target placed.action placed.start placed.text.length extra offsets

theorem yields_origin (mapper : Mapper build) (target : Target) (action : Action) (start : Nat)
    {text : List Char} {length : Nat} (hlength : length = text.length) (extra : Int)
    (offsets : Option (List Int)) :
    mapper.Yields ⟨target, action, start, text⟩
      (mapper.origin target action start length extra offsets) :=
  ⟨extra, offsets, by rw [hlength]⟩

/-- A stretch lays pieces: it moves over their text and yields an origin for each span. -/
def Lays (mapper : Mapper build) (walk : Walk) (pieces : List Piece) : Prop :=
  ∀ cursor, (walk cursor).1.written = cursor.written + (Piece.written pieces).length ∧
    List.Forall₂ mapper.Yields (Placed.spans cursor.written pieces) (walk cursor).2.origins

variable {mapper : Mapper build} {first second walk : Walk} {front back pieces : List Piece}

theorem lays_stay : mapper.Lays .stay [] := fun _ => ⟨rfl, .nil⟩

theorem lays_add (count : Int) (sums : List Int) : mapper.Lays (.add count sums) [] :=
  fun _ => ⟨rfl, .nil⟩

theorem lays_mismatch (cause : Mismatch) : mapper.Lays (.mismatch build cause) [] :=
  fun _ => ⟨rfl, .nil⟩

theorem lays_advance (text : List Char) : mapper.Lays (.advance text.length) [.gap text] :=
  fun _ => ⟨by simp [Walk.advance, Piece.text], .nil⟩

theorem lays_skip (text : List Char) : mapper.Lays (.skip text.length) [.gap text] :=
  fun _ => ⟨by simp [Walk.skip, Piece.text], .nil⟩

theorem Lays.andThen (hfirst : mapper.Lays first front) (hsecond : mapper.Lays second back) :
    mapper.Lays (first.andThen second) (front ++ back) := by
  intro cursor
  obtain ⟨hmove, hyield⟩ := hfirst cursor
  obtain ⟨hmove', hyield'⟩ := hsecond (first cursor).1
  rw [hmove] at hmove' hyield'
  refine ⟨?_, ?_⟩
  · rw [Piece.written_append, List.length_append, ← Nat.add_assoc]
    exact hmove'
  · rw [Placed.spans_append]
    exact List.rel_append hyield hyield'

theorem lays_all {items : List α} {walks : α → Walk} {layout : α → List Piece}
    (h : ∀ item ∈ items, mapper.Lays (walks item) (layout item)) :
    mapper.Lays (.all (items.map walks)) (items.flatMap layout) := by
  induction items with
  | nil => exact lays_stay
  | cons item items ih =>
      have hrest := ih fun other hmem => h other (List.mem_cons_of_mem item hmem)
      exact (h item List.mem_cons_self).andThen hrest

/-- The stretches at the ends of tags lay nothing. -/
theorem lays_tagBlanks : mapper.Lays mapper.tagBlanks [] := fun cursor => lays_add _ _ cursor

theorem lays_needlessEnd (tag : String) : mapper.Lays (mapper.needlessEnd tag) [] :=
  fun cursor => lays_add _ _ cursor

theorem lays_selfClosed (length : Nat) : mapper.Lays (mapper.selfClosed length) [] :=
  fun cursor => lays_add _ _ cursor

theorem lays_emit (target : Target) (action : Action) :
    mapper.Lays (mapper.emit target action 0) [.span target action []] :=
  fun _ => ⟨rfl, .cons (mapper.yields_origin _ _ _ rfl _ _) .nil⟩

theorem lays_span (target : Target) (action : Action) {text : List Char} {length : Nat}
    (hlength : length = text.length) :
    mapper.Lays (mapper.span target action length) [.span target action text] :=
  fun _ => ⟨by simp [span, Walk.andThen, emit, Walk.advance, Piece.text, hlength],
    .cons (mapper.yields_origin _ _ _ hlength _ _) .nil⟩

theorem lays_text (id : NodeId) (parentTag content : String) :
    mapper.Lays (mapper.text id parentTag content)
      [.span (.node id) .textValue (escapeText parentTag content.toList)] :=
  fun _ => ⟨by simp [text, Piece.text], .cons (mapper.yields_origin _ _ _ rfl _ _) .nil⟩

theorem lays_comment (id : NodeId) (content : String) :
    mapper.Lays (mapper.comment id content) (commentPieces id content) := by
  have hstart : mapper.Lays (mapper.span (.node id) .commentStart 4)
      [.span (.node id) .commentStart "<!--".toList] := lays_span _ _ rfl
  have htext : mapper.Lays (mapper.span (.node id) .textValue content.length)
      [.span (.node id) .textValue content.toList] := lays_span _ _ String.length_toList.symm
  have hend : mapper.Lays (mapper.span (.node id) .commentEnd 3)
      [.span (.node id) .commentEnd "-->".toList] := lays_span _ _ rfl
  exact hstart.andThen (htext.andThen (hend.andThen lays_stay))

theorem lays_attribute (id : NodeId) (tag : String) (attr : Attribute) :
    mapper.Lays (mapper.attributeSpans id tag attr) (attributePieces id attr) := by
  intro cursor
  have hname := length_marked ' ' attr.name
  have hvalue : (escapeAttribute attr.value.toList).length + 3 =
      ('=' :: '"' :: escapeAttribute attr.value.toList ++ ['"']).length := by simp
  refine ⟨?_, ?_⟩
  · simp only [attributeSpans, attributePieces, Piece.written_cons, Piece.text,
      Piece.written_nil, List.append_nil, List.length_append, ← hname, ← hvalue, Nat.add_assoc]
  · simp only [attributeSpans, attributePieces, Placed.spans, ← hname]
    exact .cons (mapper.yields_origin _ _ _ hname _ _)
      (.cons (mapper.yields_origin _ _ _ hvalue _ _) .nil)

theorem lays_opening (id : NodeId) (tag : String) (attributes : List Attribute) :
    mapper.Lays (mapper.opening id tag attributes) (openingPieces id tag attributes) := by
  have hstart : mapper.Lays (mapper.span (.node id) .openingTagStart (1 + tag.length))
      [.span (.node id) .openingTagStart ('<' :: tag.toList)] :=
    lays_span _ _ (length_marked '<' tag)
  have hattributes : mapper.Lays (.all (attributes.map (mapper.attributeSpans id tag)))
      (attributes.flatMap (attributePieces id)) := lays_all fun attr _ => lays_attribute id tag attr
  have hneedless : mapper.Lays
      (if mapper.closingTags tag then .stay else mapper.needlessEnd tag) [] := by
    split
    · exact lays_stay
    · exact lays_needlessEnd tag
  have hend : mapper.Lays (mapper.span (.node id) .openingTagEnd 1)
      [.span (.node id) .openingTagEnd ['>']] := lays_span _ _ rfl
  exact hstart.andThen (hattributes.andThen
    (lays_tagBlanks.andThen (hneedless.andThen (hend.andThen lays_stay))))

theorem lays_closing (id : NodeId) (tag : String) :
    mapper.Lays (mapper.closing id tag) [.span (.node id) .closingTag (closingTag tag)] := by
  have hspan : mapper.Lays (mapper.span (.node id) .closingTag (3 + tag.length))
      [.span (.node id) .closingTag (closingTag tag)] := lays_span _ _ (length_closingTag tag)
  exact hspan.andThen (lays_selfClosed _)

/-- Every node lays its pieces. -/
theorem lays_node (hbuilt : mapper.fragment.Built)
    (hclosing : ∀ tag, mapper.closingTags tag = !isVoid tag) {id : Nat}
    (hproper : mapper.fragment.Proper id) {depth : Nat}
    (hdepth : mapper.fragment.size - id < depth) :
    mapper.Lays (mapper.node depth (mapper.fragment.parentTag id) id)
      (mapper.fragment.nodePieces mapper.ignored depth (mapper.fragment.parentTag id) id) := by
  refine hbuilt.descend (motive := fun depth id =>
    mapper.Lays (mapper.node depth (mapper.fragment.parentTag id) id)
      (mapper.fragment.nodePieces mapper.ignored depth (mapper.fragment.parentTag id) id))
    ?_ hproper hdepth
  intro depth id hproper hdepth ih
  simp only [node, Fragment.nodePieces]
  split
  · exact lays_skip _
  · cases hnode : mapper.fragment.get? id with
    | none => exact lays_stay
    | some node =>
        cases hkind : node.kind with
        | text content => simpa only [hkind] using lays_text id _ content
        | comment content => simpa only [hkind] using lays_comment id content
        | element tag attributes =>
            have hchildren : mapper.Lays (.all (node.children.map (mapper.node depth tag)))
                (node.children.flatMap (mapper.fragment.nodePieces mapper.ignored depth tag)) := by
              refine lays_all fun child hmem => ?_
              rw [← Fragment.children_eq_of_get hnode] at hmem
              have hchild := (ih (Fragment.tag?_ne_none_of_get hnode hkind) child hmem).2
              rwa [Fragment.parentTag_of_child hbuilt hmem,
                Fragment.tag_of_get hnode hkind] at hchild
            simp only [hkind, hclosing]
            refine (lays_opening id tag attributes).andThen ?_
            by_cases hvoid : isVoid tag = true
            · simp only [hvoid, Bool.not_true, Bool.false_eq_true, if_false, if_true]
              split
              · exact lays_stay
              · exact lays_mismatch _
            · simp only [hvoid, Bool.not_false, Bool.false_eq_true, if_false, if_true]
              refine Lays.andThen ?_ ((lays_closing id tag).andThen lays_stay)
              split
              · exact lays_advance _
              · exact (lays_emit _ _).andThen hchildren

theorem lays_content (hbuilt : mapper.fragment.Built)
    (hclosing : ∀ tag, mapper.closingTags tag = !isVoid tag) {container : Nat}
    (hcontainer : mapper.fragment.Proper container) :
    mapper.Lays (mapper.content container)
      (mapper.fragment.contentPieces mapper.ignored container) := by
  refine (lays_emit _ _).andThen (lays_all fun child hmem => ?_)
  obtain ⟨-, hproper⟩ := hbuilt.child_of_proper hcontainer hmem
  have hbound : mapper.fragment.size - child < mapper.fragment.size + 1 := by omega
  have hchild := lays_node hbuilt hclosing hproper hbound
  rwa [Fragment.parentTag_of_child hbuilt hmem] at hchild

theorem origins_mapIn (build : Build) (closingTags : ClosingTags) (fragment : Fragment)
    (container : NodeId) (assigned : Operand RecordId) (options : MapOptions) :
    (mapIn build closingTags fragment container assigned options).origins =
      ((ofAssignment build closingTags fragment container assigned options).content container
        ⟨0, options.initialExtra.toInt⟩).2.origins :=
  List.append_nil _

theorem origins_map (closingTags : ClosingTags) (fragment : Fragment) (container : NodeId)
    (assigned : Operand RecordId) (options : MapOptions) :
    (map closingTags fragment container assigned options).origins =
      ((ofAssignment .checked closingTags fragment container assigned options).content container
        ⟨0, options.initialExtra.toInt⟩).2.origins :=
  origins_mapIn .checked closingTags fragment container assigned options

/-- A mapping reports what the walk reports, and if it ends elsewhere than the assigned string. -/
theorem diagnostics_map (closingTags : ClosingTags) (fragment : Fragment) (container : NodeId)
    (assigned : Operand RecordId) :
    (map closingTags fragment container assigned {}).diagnostics =
      let mapper := ofAssignment .checked closingTags fragment container assigned {}
      let walk := mapper.content container ⟨0, 0⟩
      walk.2.diagnostics ++ if walk.1.assigned = mapper.source.contentEnd then [] else
        [⟨walk.1.written, walk.1.assigned, .endsElsewhere walk.1.assigned
          (UInt64.ofNat mapper.value.length).toNat⟩] := by
  let mapper := ofAssignment .checked closingTags fragment container assigned {}
  let walk := mapper.content container ⟨0, 0⟩
  let end? : Diagnostic := ⟨walk.1.written, walk.1.assigned,
    .endsElsewhere walk.1.assigned (UInt64.ofNat mapper.value.length).toNat⟩
  have hmap : (map closingTags fragment container assigned {}).diagnostics =
      walk.2.diagnostics ++
        if decide (walk.1.assigned ≠ mapper.source.contentEnd) then [end?] else [] := rfl
  rw [hmap]
  show _ = walk.2.diagnostics ++
    if walk.1.assigned = mapper.source.contentEnd then [] else [end?]
  by_cases hend : walk.1.assigned = mapper.source.contentEnd
  · rw [if_neg (by simpa using hend), if_pos hend]
  · rw [if_pos (decide_eq_true hend), if_neg hend]

/-- A mapping is clean if the walk reports nothing and ends where the assigned string ends. -/
theorem clean_map_iff (closingTags : ClosingTags) (fragment : Fragment) (container : NodeId)
    (assigned : Operand RecordId) :
    (map closingTags fragment container assigned {}).diagnostics = [] ↔
      let mapper := ofAssignment .checked closingTags fragment container assigned {}
      (mapper.content container ⟨0, 0⟩).2.diagnostics = [] ∧
        (mapper.content container ⟨0, 0⟩).1.assigned = mapper.source.contentEnd := by
  rw [diagnostics_map, List.append_eq_nil_iff]
  refine and_congr_right fun _ => ?_
  split <;> simp [*]

/-- The origins of a mapping are those of the spans of the written form, in their order. -/
theorem yields_map (build : Build) {closingTags : ClosingTags} {fragment : Fragment}
    {container : Nat} (hbuilt : fragment.Built) (hproper : fragment.Proper container)
    (hremembers : closingTags.Remembers .byVoidTags) (assigned : Operand RecordId)
    (options : MapOptions) :
    List.Forall₂ (ofAssignment build closingTags fragment container assigned options).Yields
      (Placed.spans 0 (fragment.contentPieces options.ignored container))
      (mapIn build closingTags fragment container assigned options).origins := by
  have hlays : (ofAssignment build closingTags fragment container assigned options).Lays _ _ :=
    lays_content hbuilt hremembers.eq_not_isVoid hproper
  rw [origins_mapIn]
  exact (hlays ⟨0, options.initialExtra.toInt⟩).2

end Mapper

/-- An origin that stands for a placed span of some written form. -/
structure MappedOrigin.StandsFor (mapped : MappedOrigin) (html : List Char) (placed : Placed) :
    Prop where
  target : mapped.target = placed.target
  action : mapped.origin.action = placed.action
  start : mapped.origin.start.toNat = placed.start
  length : mapped.origin.length.toNat = placed.text.length
  stop_le : placed.stop ≤ html.length
  textIn : mapped.textIn html = placed.text

namespace Mapper.Yields

variable {mapper : Mapper build} {placed : Placed} {mapped : MappedOrigin} {html : List Char}

theorem places (hyields : mapper.Yields placed mapped) (hstop : placed.stop < UInt64.size) :
    mapped.origin.start.toNat = placed.start ∧
      mapped.origin.length.toNat = placed.text.length := by
  obtain ⟨extra, offsets, rfl⟩ := hyields
  rw [Placed.stop] at hstop
  exact ⟨UInt64.toNat_ofNat_of_lt' (by omega), UInt64.toNat_ofNat_of_lt' (by omega)⟩

theorem standsFor (hyields : mapper.Yields placed mapped) (hstop : placed.stop ≤ html.length)
    (hsize : html.length < UInt64.size)
    (htext : (html.drop placed.start).take placed.text.length = placed.text) :
    mapped.StandsFor html placed := by
  obtain ⟨hstart, hlength⟩ := hyields.places (Nat.lt_of_le_of_lt hstop hsize)
  obtain ⟨extra, offsets, rfl⟩ := hyields
  refine ⟨rfl, rfl, hstart, hlength, hstop, ?_⟩
  simp only [MappedOrigin.textIn, hstart, hlength, htext]

theorem capture (hyields : mapper.Yields placed mapped) (hstands : mapped.StandsFor html placed) :
    mapped.origin.capture = mapper.label.map fun (label, html) =>
      String.ofList (label.toList ++ ' ' :: mapped.textIn html) := by
  have hstart := hstands.start
  have hlength := hstands.length
  obtain ⟨extra, offsets, rfl⟩ := hyields
  simp only [MappedOrigin.textIn, hstart, hlength]
  rfl

end Mapper.Yields

namespace MappedOrigin.StandsFor

variable {placed : Placed} {mapped : MappedOrigin} {html : List Char}

theorem covers_iff (hstands : mapped.StandsFor html placed) (hsize : html.length < UInt64.size)
    (index : Nat) :
    (placed.start ≤ index ∧ index < placed.stop) ↔ mapped.origin.covers index = true := by
  have hstop : placed.start + placed.text.length < UInt64.size :=
    Nat.lt_of_le_of_lt hstands.stop_le hsize
  have hend : mapped.origin.stop.toNat = placed.stop := by
    rw [Origin.stop, UInt64.toNat_add, hstands.start, hstands.length, Placed.stop]
    exact Nat.mod_eq_of_lt hstop
  simp only [Origin.covers, hstands.start, hend, Bool.and_eq_true, decide_eq_true_eq]

end MappedOrigin.StandsFor

/-- The origins of a mapping stand for the spans of the written form, in their order. -/
theorem standsFor_map (build : Build) {closingTags : ClosingTags} {fragment : Fragment}
    {container : Nat} (hbuilt : fragment.Built) (hproper : fragment.Proper container)
    (hsize : (fragment.innerHtml container).length < UInt64.size)
    (hremembers : closingTags.Remembers .byVoidTags) (assigned : Operand RecordId)
    (options : MapOptions) :
    List.Forall₂ (fun placed mapped => mapped.StandsFor (fragment.innerHtml container) placed ∧
        (Mapper.ofAssignment build closingTags fragment container assigned options).Yields
        placed mapped)
      (Placed.spans 0 (fragment.contentPieces options.ignored container))
      (mapIn build closingTags fragment container assigned options).origins := by
  have hwritten := Fragment.written_contentPieces options.ignored hbuilt hproper
  have hyields := Mapper.yields_map build hbuilt hproper hremembers assigned options
  have hplaced : ∀ placed ∈ Placed.spans 0 (fragment.contentPieces options.ignored container),
      placed.stop ≤ (fragment.innerHtml container).length ∧
        ((fragment.innerHtml container).drop placed.start).take placed.text.length =
          placed.text := by
    intro placed hmem
    have hstop := (Placed.bounds_of_mem hmem).2
    rw [Nat.zero_add] at hstop
    rw [← hwritten]
    exact ⟨hstop, Placed.text_of_mem hmem⟩
  refine ((List.forall₂_and_left _ _).mpr ⟨hplaced, hyields⟩).imp fun placed mapped h => ?_
  exact ⟨h.2.standsFor h.1.1 hsize h.1.2, h.2⟩

theorem map_eq_map_of_forall₂ {R : α → β → Prop} {f : α → γ} {g : β → γ} {as : List α}
    {bs : List β} (h : List.Forall₂ R as bs) (hfg : ∀ a b, R a b → f a = g b) :
    as.map f = bs.map g := by
  induction h with
  | nil => rfl
  | cons hab _ ih => rw [List.map_cons, List.map_cons, hfg _ _ hab, ih]

theorem exists_of_mem_forall₂ {R : α → β → Prop} {as : List α} {bs : List β} {b : β}
    (h : List.Forall₂ R as bs) (hmem : b ∈ bs) : ∃ a ∈ as, R a b := by
  induction h with
  | nil => cases hmem
  | cons hab _ ih =>
      rcases List.mem_cons.mp hmem with rfl | hmem
      · exact ⟨_, List.mem_cons_self, hab⟩
      · obtain ⟨a, ha, hab⟩ := ih hmem
        exact ⟨a, List.mem_cons_of_mem _ ha, hab⟩

theorem exists_mem_iff_of_forall₂ {R : α → β → Prop} {p : α → Prop} {q : β → Prop}
    {as : List α} {bs : List β} (h : List.Forall₂ R as bs) (hpq : ∀ a b, R a b → (p a ↔ q b)) :
    (∃ a ∈ as, p a) ↔ ∃ b ∈ bs, q b := by
  induction h with
  | nil => simp
  | cons hab _ ih => rw [List.exists_mem_cons_iff, List.exists_mem_cons_iff, hpq _ _ hab, ih]

/-- The origins of spans that end within a word are in order, and none reaches into the next. -/
theorem before_of_yields {mapper : Mapper build} {start : Nat} {pieces : List Piece}
    {origins : List MappedOrigin}
    (hyield : List.Forall₂ mapper.Yields (Placed.spans start pieces) origins)
    (hsize : start + (Piece.written pieces).length < UInt64.size) :
    (origins.map MappedOrigin.origin).Pairwise Origin.Before ∧
      ∀ mapped ∈ origins,
        mapped.origin.start.toNat + mapped.origin.length.toNat < UInt64.size := by
  have hinside : ∀ placed ∈ Placed.spans start pieces, placed.stop < UInt64.size :=
    fun placed hmem => Nat.lt_of_le_of_lt (Placed.bounds_of_mem hmem).2 hsize
  have hboth := (List.forall₂_and_left _ _).mpr ⟨hinside, hyield⟩
  have hplaces : (Placed.spans start pieces).map (fun placed => (placed.start, placed.stop)) =
      origins.map fun mapped =>
        (mapped.origin.start.toNat, mapped.origin.start.toNat + mapped.origin.length.toNat) := by
    refine map_eq_map_of_forall₂ hboth fun placed mapped h => ?_
    obtain ⟨hstart, hlength⟩ := h.2.places h.1
    rw [hstart, hlength, Placed.stop]
  constructor
  · have hordered : ((Placed.spans start pieces).map
        fun placed => (placed.start, placed.stop)).Pairwise fun a b => a.2 ≤ b.1 :=
      List.pairwise_map.mpr (Placed.spans_pairwise start _)
    rw [hplaces] at hordered
    have happart := List.pairwise_map.mp hordered
    exact List.pairwise_map.mpr happart
  · intro mapped hmem
    obtain ⟨placed, -, hstop, hyields⟩ := exists_of_mem_forall₂ hboth hmem
    obtain ⟨hstart, hlength⟩ := hyields.places hstop
    rwa [hstart, hlength]

theorem before_map (build : Build) {closingTags : ClosingTags} {fragment : Fragment}
    {container : Nat} (hbuilt : fragment.Built) (hproper : fragment.Proper container)
    (hsize : (fragment.innerHtml container).length < UInt64.size)
    (hremembers : closingTags.Remembers .byVoidTags) (assigned : Operand RecordId)
    (options : MapOptions) :
    ((mapIn build closingTags fragment container assigned options).origins.map
      MappedOrigin.origin).Pairwise Origin.Before := by
  refine (before_of_yields (Mapper.yields_map build hbuilt hproper hremembers assigned options)
    ?_).1
  rwa [Fragment.written_contentPieces options.ignored hbuilt hproper, Nat.zero_add]

/-- Every origin of a mapping names the record that was assigned. -/
theorem tracking_map (build : Build) {closingTags : ClosingTags} {fragment : Fragment}
    {container : Nat} (hbuilt : fragment.Built) (hproper : fragment.Proper container)
    (hremembers : closingTags.Remembers .byVoidTags) (assigned : Operand RecordId)
    (options : MapOptions) {mapped : MappedOrigin}
    (hmem : mapped ∈ (mapIn build closingTags fragment container assigned options).origins) :
    mapped.origin.tracking = assigned.tracking := by
  obtain ⟨placed, -, extra, offsets, rfl⟩ :=
    exists_of_mem_forall₂ (Mapper.yields_map build hbuilt hproper hremembers assigned options) hmem
  rfl

/-- A character belongs to an origin or to a gap. -/
theorem covered_map (build : Build) {closingTags : ClosingTags} {fragment : Fragment}
    {container : Nat} (hbuilt : fragment.Built) (hproper : fragment.Proper container)
    (hsize : (fragment.innerHtml container).length < UInt64.size)
    (hremembers : closingTags.Remembers .byVoidTags) (assigned : Operand RecordId)
    (options : MapOptions) {index : Nat} (hlt : index < (fragment.innerHtml container).length) :
    (∃ mapped ∈ (mapIn build closingTags fragment container assigned options).origins,
      mapped.origin.covers index = true) ↔
        Piece.gapAt (fragment.contentPieces options.ignored container) index = false := by
  have hstands := standsFor_map build hbuilt hproper hsize hremembers assigned options
  have hwritten := Fragment.written_contentPieces options.ignored hbuilt hproper
  have hgap := Placed.covered_iff (Nat.zero_le index)
    (show index < 0 + (Piece.written (fragment.contentPieces options.ignored container)).length by
      rw [hwritten, Nat.zero_add]
      exact hlt)
  rw [Nat.sub_zero] at hgap
  rw [← hgap]
  exact (exists_mem_iff_of_forall₂ hstands fun placed mapped hpiece =>
    hpiece.1.covers_iff hsize index).symm

theorem map?_eq_none_iff {closingTags : ClosingTags} {fragment : Fragment} {container : NodeId}
    {assigned : Operand RecordId} {options : MapOptions} :
    map? build closingTags fragment container assigned options = none ↔
      build = .checked ∧
        (mapIn build closingTags fragment container assigned options).overflows = true :=
  Report.result?_eq_none_iff _

theorem eq_of_map?_eq_some {closingTags : ClosingTags} {fragment : Fragment} {container : NodeId}
    {assigned : Operand RecordId} {options : MapOptions} {report : Report}
    (h : map? build closingTags fragment container assigned options = some report) :
    report = mapIn build closingTags fragment container assigned options :=
  (Build.result?_eq_some_iff.mp h).2.symm

end Provenance.Markup
