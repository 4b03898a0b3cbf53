import Provenance.Proofs.Markup.ExactLookup
import Provenance.Proofs.Markup.Reach
import Provenance.Proofs.Markup.Trail

/-! # A text in front of the assigned string

What an assignment adds to may come in front of the assigned string. Two walks over the same tree
are followed side by side, one of them with a text in front. As long as no position lies before the
assigned string, the mapper reads the same characters on either side: it only looks back behind
a closing tag, which is never the first thing that it reads. So all positions are shifted by the
length of the text, and nothing else changes.
-/

namespace Provenance.Markup

/-! ## Shifted data -/

def Cursor.behind (cursor : Cursor) (length : Nat) : Cursor :=
  { cursor with extra := cursor.extra - length }

/-- The origin of the same span with a text in front of the assigned string. -/
def Origin.behind (origin : Origin) (front : String) : Origin :=
  { origin with extra := origin.extra - Int64.ofNat front.length, value := front ++ origin.value }

def MappedOrigin.behind (mapped : MappedOrigin) (front : String) : MappedOrigin :=
  { mapped with origin := mapped.origin.behind front }

def ResolvedOrigin.behind (resolved : ResolvedOrigin) (front : String) : ResolvedOrigin :=
  ⟨resolved.origin.behind front, resolved.charIndex + front.length⟩

def Mismatch.behind (length : Nat) : Mismatch → Mismatch
  | endsElsewhere reached contentEnd => endsElsewhere (reached + length) (contentEnd + length)
  | mismatch => mismatch

def Diagnostic.behind (diagnostic : Diagnostic) (length : Nat) : Diagnostic where
  serialized := diagnostic.serialized
  assigned := diagnostic.assigned + length
  mismatch := diagnostic.mismatch.behind length

namespace Report

/-- A report without the sums that led to it. -/
def said (report : Report) : Report := { report with sums := [] }

/-- What is said with a text in front of the assigned string. -/
def behind (report : Report) (front : String) : Report where
  origins := report.origins.map (·.behind front)
  diagnostics := report.diagnostics.map (·.behind front.length)

theorem said_append (first second : Report) : (first ++ second).said = first.said ++ second.said :=
  rfl

theorem behind_append (first second : Report) (front : String) :
    (first ++ second).behind front = first.behind front ++ second.behind front := by
  show Report.mk ((first.origins ++ second.origins).map _)
    ((first.diagnostics ++ second.diagnostics).map _) [] = _
  rw [List.map_append, List.map_append]
  rfl

end Report

def Source.behind (source : Source .checked) (front : List Char) : Source .checked :=
  ⟨front ++ source.chars, source.contentEnd + front.length⟩

/-- The mapper of the same assignment with a text in front of the assigned string. -/
def Mapper.behind (mapper : Mapper .checked) (front : String) : Mapper .checked :=
  { mapper with source := mapper.source.behind front.toList, value := front ++ mapper.value }

/-! ## What is read of the assigned string -/

namespace Source

variable {source : Source .checked} {front text : List Char} {position added : Int} {keeps : Bool}
  {inside : Nat}

theorem slice_behind (hpos : 0 ≤ position) (count : Nat) :
    (source.behind front).slice (position + front.length) count = source.slice position count := by
  obtain ⟨place, rfl⟩ := Int.eq_ofNat_of_zero_le hpos
  have hplace : ((place : Int) + front.length).toNat = front.length + place := by omega
  simp only [slice_eq, behind, hplace, Int.toNat_natCast, List.drop_length_add_append]
  rw [if_neg (by omega), if_neg (by omega)]

theorem corrections_behind (hpos : 0 ≤ position) :
    (source.behind front).corrections keeps text inside (position + front.length) added =
      source.corrections keeps text inside position added := by
  induction text generalizing inside position added with
  | nil => rfl
  | cons c rest ih =>
      cases inside with
      | succ inside => rw [corrections_inside, corrections_inside, ih hpos]
      | zero =>
          by_cases hstop : source.contentEnd ≤ position
          · have hbehind : (source.behind front).contentEnd ≤ position + front.length :=
              Int.add_le_add_right hstop _
            rw [corrections_stop c rest hstop, corrections_stop c rest hbehind]
          · have hbehind : position + front.length < (source.behind front).contentEnd :=
              Int.add_lt_add_right (Int.not_le.mp hstop) _
            have hpair : (source.behind front).pair keeps (c :: rest) (position + front.length) =
                source.pair keeps (c :: rest) position := by
              simp only [pair, slice_behind hpos]
            obtain ⟨dropped, hdropped⟩ :
              ∃ dropped, (source.pair keeps (c :: rest) position).2 = dropped := ⟨_, rfl⟩
            have hmoved : position + front.length + 1 + dropped =
                position + 1 + dropped + front.length := by omega
            rw [corrections_go c rest (Int.not_le.mp hstop), corrections_go c rest hbehind, hpair]
            simp only [hdropped, hmoved]
            rw [ih (by omega)]

theorem table_behind (hpos : 0 ≤ position) (tag : String) :
    (source.behind front).table tag text (position + front.length) =
      source.table tag text position := corrections_behind hpos

end Source

namespace Mapper

variable {mapper : Mapper .checked} {front tag : String} {position : Int}

theorem slice_behind (hpos : 0 ≤ position) (count : Nat) :
    (mapper.behind front).source.slice (position + front.length) count =
      mapper.source.slice position count := by
  rw [← String.length_toList]
  exact Source.slice_behind hpos count

theorem table_behind (hpos : 0 ≤ position) (text : List Char) :
    (mapper.behind front).source.table tag text (position + front.length) =
      mapper.source.table tag text position := by
  rw [← String.length_toList]
  exact Source.table_behind hpos tag

/-- An attribute is spelled the same, and its parts begin as far behind as it does. -/
theorem spelling_behind (hpos : 0 ≤ position) (attr : Attribute) :
    (mapper.behind front).spelling tag attr (position + front.length) =
      mapper.spelling tag attr position := by
  have hafter : ∀ count : Nat, (mapper.behind front).source.slice
      (position + front.length + count + attr.name.length) 50 =
        mapper.source.slice (position + count + attr.name.length) 50 := by
    intro count
    have hmoved : position + front.length + count + attr.name.length =
        position + count + attr.name.length + front.length := by omega
    rw [hmoved]
    exact slice_behind (by omega) 50
  have hequals : ∀ before after : Nat, (mapper.behind front).source.slice
      (position + front.length + before + attr.name.length + after + 1) 50 =
        mapper.source.slice (position + before + attr.name.length + after + 1) 50 := by
    intro before after
    have hmoved : position + front.length + before + attr.name.length + after + 1 =
        position + before + attr.name.length + after + 1 + front.length := by omega
    rw [hmoved]
    exact slice_behind (by omega) 50
  have htable : ∀ (text : List Char) (blanks before after : Nat) (mark : Int), 0 ≤ mark →
      (mapper.behind front).source.table tag text
        (position + front.length + blanks + attr.name.length + before + 1 + after + mark) =
          mapper.source.table tag text
            (position + blanks + attr.name.length + before + 1 + after + mark) := by
    intro text blanks before after mark hmark
    have hmoved :
        position + front.length + blanks + attr.name.length + before + 1 + after + mark =
          position + blanks + attr.name.length + before + 1 + after + mark + front.length := by
      omega
    rw [hmoved]
    exact table_behind (by omega) text
  simp only [spelling, slice_behind hpos, hafter, hequals, valueOffsets]
  split
  · rw [htable]
    split
    · exact Int.one_nonneg
    · exact Int.le_refl 0
  · rfl

/-- What is reported of an attribute names no position. -/
theorem behind_of_mem_mismatches {attr : Attribute} {start : Int} {cause : Mismatch}
    (hmem : cause ∈ (mapper.spelling tag attr start).mismatches) (length : Nat) :
    cause.behind length = cause := by
  simp only [spelling] at hmem
  split at hmem
  · grind [Mismatch.behind]
  · grind [Mismatch.behind]

/-! ## Two walks side by side -/

theorem assigned_behind (cursor : Cursor) (length : Nat) :
    (cursor.behind length).assigned = cursor.assigned + length := by
  simp only [Cursor.behind, Cursor.assigned]
  omega

theorem origin_behind (mapper : Mapper .checked) (front : String) (target : Target)
    (action : Action) (start length : Nat) (extra : Int) (offsets : Option (List Int)) :
    (mapper.behind front).origin target action start length (extra - front.length) offsets =
      (mapper.origin target action start length extra offsets).behind front := by
  simp only [origin, MappedOrigin.behind, Origin.behind, behind, Int64.ofInt_sub,
    Int64.ofInt_eq_ofNat]

/-- Whether the second of two stretches is the first one with a text in front, wherever they set
    out in the assigned string. The first never goes back. -/
structure Shifts (front : String) (walk walk' : Walk) : Prop where
  follows : ∀ cursor : Cursor, cursor.Follows (walk cursor).1
  moved : ∀ cursor : Cursor, 0 ≤ cursor.assigned →
    (walk' (cursor.behind front.length)).1 = (walk cursor).1.behind front.length
  said : ∀ cursor : Cursor, 0 ≤ cursor.assigned →
    (walk' (cursor.behind front.length)).2.said = (walk cursor).2.behind front

variable {first second first' second' walk walk' : Walk}

theorem Shifts.andThen (hfirst : Shifts front first first')
    (hsecond : Shifts front second second') :
    Shifts front (first.andThen second) (first'.andThen second') := by
  have hreached : ∀ cursor : Cursor, 0 ≤ cursor.assigned → 0 ≤ (first cursor).1.assigned :=
    fun cursor hpos => Int.le_trans hpos (hfirst.follows cursor).assigned
  refine ⟨fun cursor => (hfirst.follows cursor).trans (hsecond.follows _), fun cursor hpos => ?_,
    fun cursor hpos => ?_⟩
  · simp only [Walk.andThen, hfirst.moved cursor hpos, hsecond.moved _ (hreached cursor hpos)]
  · simp only [Walk.andThen, Report.said_append, Report.behind_append, hfirst.moved cursor hpos,
      hfirst.said cursor hpos, hsecond.said _ (hreached cursor hpos)]

theorem shifts_stay (front : String) : Shifts front .stay .stay :=
  ⟨fun cursor => .refl cursor, fun _ _ => rfl, fun _ _ => rfl⟩

theorem shifts_advance (front : String) (count : Nat) :
    Shifts front (.advance count) (.advance count) :=
  ⟨fun cursor => ⟨Nat.le_add_right _ _, by simp only [Walk.advance, Cursor.assigned]; omega⟩,
    fun _ _ => rfl, fun _ _ => rfl⟩

theorem shifts_skip (front : String) (count : Nat) :
    Shifts front (.skip count) (.skip count) := by
  refine ⟨fun cursor => ⟨Nat.le_add_right _ _, ?_⟩, fun cursor _ => ?_, fun _ _ => rfl⟩
  · simp only [Walk.skip, Cursor.assigned]
    omega
  · simp only [Walk.skip, Cursor.behind, Cursor.mk.injEq, true_and]
    omega

/-- Stretches that drop characters by what they read. -/
theorem shifts_add {added added' : Cursor → Int} {sums sums' : Cursor → List Int}
    (hfollows : ∀ cursor : Cursor,
      cursor.Follows (Walk.add (added cursor) (sums cursor) cursor).1)
    (hadded : ∀ cursor : Cursor, 0 ≤ cursor.assigned →
      added' (cursor.behind front.length) = added cursor) :
    Shifts front (fun cursor => Walk.add (added cursor) (sums cursor) cursor)
      (fun cursor => Walk.add (added' cursor) (sums' cursor) cursor) := by
  refine ⟨hfollows, fun cursor hpos => ?_, fun _ _ => rfl⟩
  have hsame := hadded cursor hpos
  simp only [Walk.add, Cursor.behind, Cursor.mk.injEq, true_and] at hsame ⊢
  omega

section Parts

variable (mapper : Mapper .checked) (front : String)

theorem shifts_childless (tag : String) :
    Shifts front (.mismatch .checked (.childrenOfUnclosed tag))
      (.mismatch .checked (.childrenOfUnclosed tag)) := by
  refine ⟨fun cursor => .refl cursor, fun _ _ => rfl, fun cursor _ => ?_⟩
  simp only [Walk.mismatch, assigned_behind]
  rfl

theorem shifts_emit (target : Target) (action : Action) (length : Nat) :
    Shifts front (mapper.emit target action length)
      ((mapper.behind front).emit target action length) := by
  refine ⟨fun cursor => .refl cursor, fun _ _ => rfl, fun cursor _ => ?_⟩
  simp only [emit, Cursor.behind, origin_behind]
  rfl

theorem shifts_span (target : Target) (action : Action) (length : Nat) :
    Shifts front (mapper.span target action length)
      ((mapper.behind front).span target action length) :=
  (mapper.shifts_emit front target action length).andThen (shifts_advance front length)

theorem shifts_text (id : NodeId) (parentTag content : String) :
    Shifts front (mapper.text id parentTag content)
      ((mapper.behind front).text id parentTag content) := by
  refine ⟨fun cursor => (mapper.advances_text _ _ _ cursor).follows, fun cursor hpos => ?_,
    fun cursor hpos => ?_⟩
  · simp only [text, assigned_behind, table_behind hpos]
    simp only [Cursor.behind, Cursor.mk.injEq, true_and]
    omega
  · simp only [text, assigned_behind, table_behind hpos]
    simp only [Cursor.behind, origin_behind]
    rfl

theorem shifts_comment (id : NodeId) (content : String) :
    Shifts front (mapper.comment id content) ((mapper.behind front).comment id content) :=
  (mapper.shifts_span front _ _ _).andThen ((mapper.shifts_span front _ _ _).andThen
    ((mapper.shifts_span front _ _ _).andThen (shifts_stay front)))

theorem shifts_attribute (id : NodeId) (tag : String) (attr : Attribute) :
    Shifts front (mapper.attributeSpans id tag attr)
      ((mapper.behind front).attributeSpans id tag attr) := by
  refine ⟨fun cursor => (mapper.advances_attribute _ _ _ cursor).follows, fun cursor hpos => ?_,
    fun cursor hpos => ?_⟩
  · simp only [attributeSpans, assigned_behind, spelling_behind hpos]
    simp only [Cursor.behind, Cursor.mk.injEq, true_and]
    omega
  · simp only [attributeSpans, assigned_behind, spelling_behind hpos]
    simp only [Cursor.behind, origin_behind, Report.said, Report.behind, List.map_map,
      List.map_cons, List.map_nil, Report.mk.injEq, true_and, and_true]
    refine List.map_congr_left fun cause hmem => ?_
    simp only [Function.comp_apply, Diagnostic.behind, behind_of_mem_mismatches hmem]
    rfl

theorem shifts_tagBlanks : Shifts front mapper.tagBlanks (mapper.behind front).tagBlanks := by
  refine shifts_add (fun cursor => (mapper.advances_tagBlanks cursor).follows) fun cursor hpos => ?_
  rw [assigned_behind, slice_behind hpos]

theorem shifts_needlessEnd (tag : String) :
    Shifts front (mapper.needlessEnd tag) ((mapper.behind front).needlessEnd tag) := by
  refine shifts_add (fun cursor => ?_) fun cursor hpos => ?_
  · obtain ⟨hwritten, hassigned, -⟩ := mapper.needlessEnd_bounds tag cursor
    exact ⟨Nat.le_of_eq hwritten.symm, hassigned⟩
  · simp only [assigned_behind, slice_behind hpos]

/-- What follows the name in an opening tag. -/
theorem shifts_afterName (id : NodeId) (tag : String) (attributes : List Attribute) :
    Shifts front
      (.all [.all (attributes.map (mapper.attributeSpans id tag)), mapper.tagBlanks,
        if mapper.closingTags tag then .stay else mapper.needlessEnd tag,
        mapper.span (.node id) .openingTagEnd 1])
      (.all [.all (attributes.map ((mapper.behind front).attributeSpans id tag)),
        (mapper.behind front).tagBlanks,
        if mapper.closingTags tag then .stay else (mapper.behind front).needlessEnd tag,
        (mapper.behind front).span (.node id) .openingTagEnd 1]) := by
  have hattributes : Shifts front (.all (attributes.map (mapper.attributeSpans id tag)))
      (.all (attributes.map ((mapper.behind front).attributeSpans id tag))) :=
    Walk.all_related (shifts_stay front) Shifts.andThen fun attr _ =>
      mapper.shifts_attribute front id tag attr
  have hneedless : Shifts front (if mapper.closingTags tag then .stay else mapper.needlessEnd tag)
      (if mapper.closingTags tag then .stay else (mapper.behind front).needlessEnd tag) := by
    split
    · exact shifts_stay front
    · exact mapper.shifts_needlessEnd front tag
  exact hattributes.andThen ((mapper.shifts_tagBlanks front).andThen (hneedless.andThen
    ((mapper.shifts_span front _ _ _).andThen (shifts_stay front))))

theorem shifts_opening (id : NodeId) (tag : String) (attributes : List Attribute) :
    Shifts front (mapper.opening id tag attributes)
      ((mapper.behind front).opening id tag attributes) :=
  (mapper.shifts_span front _ _ _).andThen (mapper.shifts_afterName front id tag attributes)

/-- An opening tag has at least one assigned character. -/
theorem assigned_lt_opening (id : NodeId) (tag : String) (attributes : List Attribute)
    (cursor : Cursor) :
    cursor.assigned < (mapper.opening id tag attributes cursor).1.assigned := by
  have hname : (mapper.span (.node id) .openingTagStart (1 + tag.length) cursor).1.assigned =
      cursor.assigned + (1 + tag.length) := by
    show ((cursor.written + (1 + tag.length) : Nat) : Int) - cursor.extra = _
    simp only [Cursor.assigned]
    omega
  have hafter := ((mapper.shifts_afterName "" id tag attributes).follows
    (mapper.span (.node id) .openingTagStart (1 + tag.length) cursor).1).assigned
  rw [hname] at hafter
  exact Int.lt_of_lt_of_le (by omega) hafter

/-- A closing tag that does not begin at the front: what it looks back at is the character before
    it. -/
theorem closing_behind (id : NodeId) (tag : String) {cursor : Cursor} (hpos : 0 < cursor.assigned) :
    ((mapper.behind front).closing id tag (cursor.behind front.length)).1 =
        (mapper.closing id tag cursor).1.behind front.length ∧
      ((mapper.behind front).closing id tag (cursor.behind front.length)).2.said =
        (mapper.closing id tag cursor).2.behind front := by
  let length := 3 + tag.length
  let behind : Cursor := ⟨cursor.written + length, cursor.extra⟩
  have hback : behind.assigned - 1 - length = cursor.assigned - 1 := by
    simp only [behind, Cursor.assigned]
    omega
  have hback' : (behind.behind front.length).assigned - 1 - length =
      cursor.assigned - 1 + front.length := by
    rw [assigned_behind]
    omega
  have hselfClosed : ((mapper.behind front).selfClosed length (behind.behind front.length)).1 =
      (mapper.selfClosed length behind).1.behind front.length := by
    simp only [selfClosed, hback, hback', slice_behind (Int.le_sub_one_of_lt hpos)]
    simp only [Walk.add, Cursor.behind, Cursor.mk.injEq, true_and]
    omega
  have hspan := mapper.shifts_span front (.node id) .closingTag length
  refine ⟨?_, ?_⟩
  · simp only [closing, Walk.andThen]
    rw [hspan.moved cursor (Int.le_of_lt hpos)]
    exact hselfClosed
  · simp only [closing, Walk.andThen, Report.said_append, Report.behind_append]
    rw [hspan.said cursor (Int.le_of_lt hpos)]
    rfl

/-- An element with a closing tag. What stands in front of that has been read by then. -/
theorem shifts_closed (id : NodeId) (tag : String) (attributes : List Attribute)
    {inner inner' : Walk} (hinner : Shifts front inner inner') :
    Shifts front ((mapper.opening id tag attributes).andThen (.all [inner, mapper.closing id tag]))
      (((mapper.behind front).opening id tag attributes).andThen
        (.all [inner', (mapper.behind front).closing id tag])) := by
  have hopening := mapper.shifts_opening front id tag attributes
  have hopened : ∀ cursor : Cursor, 0 ≤ cursor.assigned →
      0 < (mapper.opening id tag attributes cursor).1.assigned := fun cursor hpos =>
    Int.lt_of_le_of_lt hpos (mapper.assigned_lt_opening id tag attributes cursor)
  have hinside : ∀ cursor : Cursor, 0 ≤ cursor.assigned →
      0 < (inner (mapper.opening id tag attributes cursor).1).1.assigned := fun cursor hpos =>
    Int.lt_of_lt_of_le (hopened cursor hpos) (hinner.follows _).assigned
  refine ⟨fun cursor => ?_, fun cursor hpos => ?_, fun cursor hpos => ?_⟩
  · exact ((hopening.follows cursor).trans (hinner.follows _)).trans
      (mapper.advances_closing id tag _).follows
  · have hclosing := mapper.closing_behind front id tag (hinside cursor hpos)
    simp only [Walk.andThen, Walk.all, Walk.stay, hopening.moved cursor hpos,
      hinner.moved _ (Int.le_of_lt (hopened cursor hpos)), hclosing.1]
  · have hclosing := mapper.closing_behind front id tag (hinside cursor hpos)
    simp only [Walk.andThen, Walk.all, Walk.stay, Report.said_append, Report.behind_append,
      hopening.moved cursor hpos, hopening.said cursor hpos,
      hinner.moved _ (Int.le_of_lt (hopened cursor hpos)),
      hinner.said _ (Int.le_of_lt (hopened cursor hpos)), hclosing.2]
    rfl

/-- The whole walk is shifted. -/
theorem parallel_shifts : Parallel mapper (mapper.behind front) (Shifts front) where
  fragment := rfl
  closingTags := rfl
  ignored := rfl
  stay := shifts_stay front
  andThen := Shifts.andThen
  skip := shifts_skip front
  advance := shifts_advance front
  childless := shifts_childless front
  mark _ := mapper.shifts_emit front _ _ _
  text := mapper.shifts_text front
  comment := mapper.shifts_comment front
  opening _ _ := mapper.shifts_opening front _ _ _
  closed _ _ := mapper.shifts_closed front _ _ _

end Parts

/-! ## Lookups -/

variable {mapper : Mapper .checked} {a b : Cursor} {mapped : MappedOrigin} {target : Target}
  {action : Action} {start length index : Nat} {extra : Int} {offsets : Option (List Int)}

theorem assignedPosition_behind (start : Nat) (extra : Int) (offsets : Option (List Int))
    (relative length : Nat) :
    assignedPosition start (extra - length) offsets relative =
      assignedPosition start extra offsets relative + length := by
  simp only [assignedPosition]
  omega

/-- An index that leads into the assigned string leads as far behind as the text is long, if that is
    a word. -/
theorem assignedIndex_behind (hfirst : start ≤ index) (hstart : start < UInt64.size)
    (hpos : 0 ≤ assignedPosition start extra offsets (index - start))
    (hword : assignedPosition start extra offsets (index - start) + front.length < lengthLimit) :
    let origin := (mapper.origin target action start length extra offsets).origin
    (origin.behind front).assignedIndex index =
      (origin.assignedIndex index).map (· + front.length) := by
  intro origin
  let place := assignedPosition start extra offsets (index - start)
  have hplace : origin.assignedIndex index = some place.toNat := by
    rw [assignedIndex_origin _ _ _ _ _ hfirst hstart]
    exact place_of_word hpos (by omega)
  have hbehind : origin.behind front = ((mapper.behind front).origin target action start length
      (extra - front.length) offsets).origin :=
    congrArg MappedOrigin.origin
      (mapper.origin_behind front target action start length extra offsets).symm
  have hplace' : (origin.behind front).assignedIndex index =
      some (place + front.length).toNat := by
    rw [hbehind, assignedIndex_origin _ _ _ _ _ hfirst hstart, assignedPosition_behind]
    exact place_of_word (by omega) hword
  rw [hplace, hplace', Option.map_some, Int.toNat_add_nat hpos]

/-- What the numbers of an origin cover, as words, is the span. -/
theorem SpanInReach.covers_iff (h : mapper.SpanInReach a b start length extra offsets)
    (hwritten : b.written < UInt64.size) :
    (mapper.origin target action start length extra offsets).origin.covers index = true ↔
      start ≤ index ∧ index < start + length := by
  have hstop := h.stop
  have hstartWord : (UInt64.ofNat start).toNat = start := UInt64.toNat_ofNat_of_lt' (by omega)
  have hlengthWord : (UInt64.ofNat length).toNat = length :=
    UInt64.toNat_ofNat_of_lt' (by omega)
  have hspans := @Origin.covers_iff_spans
    (mapper.origin target action start length extra offsets).origin index
  simp only [Origin.stopFits, Origin.Spans, origin, hstartWord, hlengthWord,
    decide_eq_true_eq] at hspans
  exact hspans (by omega)

/-- A character in reach is resolved as far behind as the text is long, if that is a word: its
    position does not lie before the assigned string, so it is found with and without the text. -/
theorem SpanInReach.resolve?_behind (h : mapper.SpanInReach a b start length extra offsets)
    (hpos : 0 ≤ a.assigned) (hwritten : b.written < UInt64.size)
    (hword : start ≤ index → index < start + length →
      assignedPosition start extra offsets (index - start) + front.length < lengthLimit) :
    let origin := (mapper.origin target action start length extra offsets).origin
    (origin.behind front).resolve? index = (origin.resolve? index).map (·.behind front) := by
  intro origin
  have hcovers : (origin.behind front).covers index = origin.covers index := rfl
  rw [Origin.resolve?, Origin.resolve?, hcovers]
  split
  · rename_i hinside
    obtain ⟨hfirst, hlast⟩ := (h.covers_iff hwritten).mp hinside
    have hplace := (h.positions (index - start) (by omega)).1
    have hstop := h.stop
    rw [assignedIndex_behind hfirst (by omega) (Int.le_trans hpos hplace) (hword hfirst hlast)]
    simp only [Option.map_map, Function.comp_def, ResolvedOrigin.behind]
    rfl
  · rfl

/-- That is a word where the strings are short. -/
theorem InReach.resolve?_behind (h : mapper.InReach a b mapped) (hpos : 0 ≤ a.assigned)
    (hlimit : max a.assigned mapper.source.chars.length + front.length + b.written < lengthLimit) :
    (mapped.origin.behind front).resolve? index =
      (mapped.origin.resolve? index).map (·.behind front) := by
  obtain ⟨target, action, start, length, extra, offsets, rfl, hreaches⟩ := h
  have hsize : UInt64.size = 2 * lengthLimit := rfl
  refine hreaches.resolve?_behind hpos (by omega) fun hfirst hlast => ?_
  have hstop := hreaches.stop
  obtain ⟨-, hplace, -⟩ := hreaches.positions (index - start) (by omega)
  omega

theorem place_origin (hextra : Origin.isSigned extra = true) :
    (mapper.origin target action start length extra offsets).origin.place index =
      index - extra := by
  simp only [Origin.place, origin, Origin.toInt_ofInt_of_isSigned hextra]

theorem exactIndex_origin (hfirst : start ≤ index) (hstart : start < UInt64.size)
    (hextra : Origin.isSigned extra = true)
    (hoffset : Origin.isSigned ((offsets.bind (·[index - start]?)).getD 0) = true) :
    (mapper.origin target action start length extra offsets).origin.exactIndex index =
      assignedPosition start extra offsets (index - start) := by
  have hword : (mapper.origin target action start length extra offsets).origin.start.toNat =
      start := UInt64.toNat_ofNat_of_lt' hstart
  rw [Origin.exactIndex, place_origin hextra, hword, offsetAt_origin,
    Origin.toInt_ofInt_of_isSigned hoffset, assignedPosition]
  omega

/-- It is also a word wherever the lookup with the text makes no sum that is not: then all numbers
    behind that lookup are what their words say. -/
theorem InReach.resolve?_behind_of_fits (h : mapper.InReach a b mapped) (hpos : 0 ≤ a.assigned)
    (hchars : mapper.source.chars.length < lengthLimit)
    (hstop : b.assigned + front.length < lengthLimit) (hwritten : b.written < UInt64.size)
    (hindex : index < lengthLimit)
    (hfits : (mapped.origin.behind front).covers index = true →
      (mapped.origin.behind front).indexFits index = true) :
    (mapped.origin.behind front).resolve? index =
      (mapped.origin.resolve? index).map (·.behind front) := by
  obtain ⟨target, action, start, length, extra, offsets, rfl, hreaches⟩ := h
  refine hreaches.resolve?_behind hpos hwritten fun hfirst hlast => ?_
  have hcovers := (@SpanInReach.covers_iff _ _ _ target action start length index extra offsets
    hreaches hwritten).mpr ⟨hfirst, hlast⟩
  have hboth := (Origin.indexFits_iff hindex).mp (hfits hcovers)
  have hbehind := congrArg MappedOrigin.origin
    (mapper.origin_behind front target action start length extra offsets)
  obtain ⟨hplace, -, hcorrection⟩ := hreaches.positions (index - start) (by omega)
  have hbegin := hreaches.follows.assigned
  have hend := hreaches.assigned
  have hstart : start < UInt64.size := by
    have hlength := hreaches.stop
    omega
  have hextra : Origin.isSigned (extra - front.length) = true := by
    simp only [Cursor.assigned] at hbegin hend hpos hstop
    exact Origin.isSigned_iff.mpr ⟨by omega, by omega⟩
  simp only [MappedOrigin.behind] at hbehind
  rw [← hbehind, place_origin hextra] at hboth
  have hoffset : Origin.isSigned ((offsets.bind (·[index - start]?)).getD 0) = true := by
    have hleast := (Origin.isSigned_iff.mp hboth.1).2
    simp only [assignedPosition] at hplace hcorrection
    exact Origin.isSigned_iff.mpr ⟨by omega, by omega⟩
  rw [exactIndex_origin hfirst hstart hextra hoffset, assignedPosition_behind] at hboth
  exact (Origin.isSigned_iff.mp hboth.2).2

end Mapper

section Spans

variable {origins : List MappedOrigin} {front : String} {index : Nat}

theorem consulted?_behind : (Mapping.ofMapped (origins.map (·.behind front))).consulted? index =
    ((Mapping.ofMapped origins).consulted? index).map (·.behind front) := by
  have hspans : (origins.map (·.behind front)).map MappedOrigin.origin =
      (origins.map MappedOrigin.origin).map (·.behind front) := by
    simp only [List.map_map, Function.comp_def, MappedOrigin.behind]
  rw [Mapping.ofMapped, Mapping.ofMapped, hspans]
  exact @Mapping.consulted?_map (·.behind front) (fun _ => rfl) (fun _ => rfl)
    (origins.map MappedOrigin.origin) index

/-- A lookup is shifted with the spans where the span that it consults is. -/
theorem originAt_behind (hconsulted : ∀ mapped ∈ origins,
      (Mapping.ofMapped origins).consulted? index = some mapped.origin →
        (mapped.origin.behind front).resolve? index =
          (mapped.origin.resolve? index).map (·.behind front)) :
    (Mapping.ofMapped (origins.map (·.behind front))).originAt index =
      ((Mapping.ofMapped origins).originAt index).map (·.behind front) := by
  rw [Mapping.originAt_eq_consulted?, Mapping.originAt_eq_consulted?, consulted?_behind]
  cases hspan : (Mapping.ofMapped origins).consulted? index with
  | none => rfl
  | some origin =>
      obtain ⟨mapped, hmem, rfl⟩ := List.mem_map.mp (Mapping.mem_of_consulted? hspan)
      exact hconsulted mapped hmem hspan

end Spans

/-! ## Mappings -/

/-- The options of a mapping whose assigned string has a text of this length in front. -/
def MapOptions.behind (options : MapOptions) (length : Nat) : MapOptions :=
  { options with
    initialExtra := options.initialExtra - Int64.ofNat length
    contentEnd := options.contentEnd.map (· + UInt64.ofNat length) }

section Words

variable {stop : UInt64} {length : Nat}

theorem toInt_toInt64 (h : stop.toNat < lengthLimit) : stop.toInt64.toInt = stop.toNat := by
  rw [← toInt_ofNat_of_lt h, ← UInt64.toInt64_ofNat', UInt64.ofNat_toNat]

theorem toNat_add_length (h : stop.toNat + length < lengthLimit) :
    (stop + UInt64.ofNat length).toNat = stop.toNat + length := by
  have hsize : UInt64.size = 2 * lengthLimit := rfl
  have hlength : (UInt64.ofNat length).toNat = length := UInt64.toNat_ofNat_of_lt' (by omega)
  rw [UInt64.toNat_add, hlength]
  exact Nat.mod_eq_of_lt (Nat.lt_trans h (by decide))

theorem toInt_sub_length {extra : Int} (hlow : -(lengthLimit : Int) ≤ extra - length)
    (hhigh : extra < lengthLimit) :
    (Int64.ofInt extra - Int64.ofNat length).toInt = extra - length := by
  rw [← Int64.ofInt_eq_ofNat, ← Int64.ofInt_sub]
  exact Int64.toInt_ofInt_of_le hlow (Int.lt_of_le_of_lt (Int.sub_le_self _ (by omega)) hhigh)

/-- An origin with the text in front has fewer added characters, where both numbers are words. -/
theorem toInt_extra_behind {mapped : MappedOrigin} {extra : Int} {front : String}
    (hextra : mapped.origin.extra = Int64.ofInt extra)
    (hlow : -(lengthLimit : Int) ≤ extra - front.length) (hhigh : extra < lengthLimit) :
    (mapped.behind front).origin.extra.toInt = mapped.origin.extra.toInt - front.length := by
  have hword : mapped.origin.extra.toInt = extra := by
    rw [hextra]
    exact Int64.toInt_ofInt_of_le (Int.le_trans hlow (Int.sub_le_self _ (by omega))) hhigh
  rw [hword, ← toInt_sub_length hlow hhigh, ← hextra]
  rfl

end Words

section Assignment

variable (closingTags : ClosingTags) (fragment : Fragment) (container : NodeId)
  (front back : String) (tracking : Option RecordId) (options : MapOptions)

theorem MapOptions.stop_behind : (options.behind front.length).stop (front ++ back) =
    options.stop back + UInt64.ofNat front.length := by
  cases hstop : options.contentEnd with
  | none =>
      simp only [stop, behind, hstop, Option.map_none, Option.getD_none, String.length_append,
        UInt64.ofNat_add]
      exact UInt64.add_comm _ _
  | some stop => simp only [MapOptions.stop, behind, hstop, Option.map_some, Option.getD_some]

theorem MapOptions.stop_lt (hlength : (front ++ back).length < lengthLimit)
    (hend : ∀ stop, options.contentEnd = some stop → stop.toNat + front.length < lengthLimit) :
    (options.stop back).toNat + front.length < lengthLimit := by
  cases hstop : options.contentEnd with
  | none =>
      have hsize : UInt64.size = 2 * lengthLimit := rfl
      rw [String.length_append] at hlength
      have hword : (UInt64.ofNat back.length).toNat = back.length :=
        UInt64.toNat_ofNat_of_lt' (by omega)
      rw [stop, hstop, Option.getD_none, hword]
      omega
  | some stop =>
      rw [MapOptions.stop, hstop]
      exact hend stop hstop

namespace Mapper

theorem ofAssignment_behind (hstop : (options.stop back).toNat + front.length < lengthLimit) :
    ofAssignment .checked closingTags fragment container { value := .str (front ++ back), tracking }
        (options.behind front.length) =
      (ofAssignment .checked closingTags fragment container { value := .str back, tracking }
        options).behind front := by
  have hcontentEnd : ((options.behind front.length).stop (front ++ back)).toInt64.toInt =
      (options.stop back).toInt64.toInt + front.toList.length := by
    rw [options.stop_behind, toInt_toInt64 (by rw [toNat_add_length hstop]; exact hstop),
      toNat_add_length hstop, toInt_toInt64 (Nat.lt_of_le_of_lt (Nat.le_add_right _ _) hstop),
      String.length_toList, Int.natCast_add]
  have hchars : (front ++ back).toList = front.toList ++ back.toList := String.toList_append
  simp only [ofAssignment, behind, Source.behind, Mapper.mk.injEq, Source.mk.injEq, true_and]
  exact ⟨⟨hchars, hcontentEnd⟩, rfl, rfl, rfl⟩

theorem ending_behind (mapper : Mapper .checked) {stop : UInt64}
    (hstop : stop.toNat + front.length < lengthLimit) (cursor : Cursor) :
    ((mapper.behind front).ending (stop + UInt64.ofNat front.length)
        (cursor.behind front.length)).said = (mapper.ending stop cursor).behind front := by
  have hcontentEnd : (mapper.behind front).source.contentEnd =
      mapper.source.contentEnd + front.length := by
    rw [← String.length_toList]
    rfl
  have hignored : (mapper.behind front).ignored = mapper.ignored := rfl
  by_cases hends : cursor.assigned = mapper.source.contentEnd
  · have hends' : (cursor.behind front.length).assigned =
        (mapper.behind front).source.contentEnd := by
      rw [assigned_behind, hends, hcontentEnd]
    simp only [ending, Build.position_checked, ne_eq, hends, hends', not_true_eq_false,
      decide_false, Bool.and_false, Bool.false_eq_true, if_false]
    rfl
  · have hends' : ¬ (cursor.behind front.length).assigned =
        (mapper.behind front).source.contentEnd := by
      rw [assigned_behind, hcontentEnd]
      omega
    simp only [ending, Build.position_checked, ne_eq, hends, hends', not_false_eq_true,
      decide_true, Bool.and_true, hignored, Report.said, Report.behind]
    split
    · simp only [assigned_behind, toNat_add_length hstop]
      rfl
    · rfl

end Mapper

/-- The cursor of the options, and the same one with the text in front. -/
theorem MapOptions.start_behind (hzero : options.initialExtra ≤ 0)
    (hset : -(lengthLimit : Int) ≤ options.initialExtra.toInt - front.length) :
    (⟨0, (options.behind front.length).initialExtra.toInt⟩ : Cursor) =
      Cursor.behind ⟨0, options.initialExtra.toInt⟩ front.length := by
  have hnegative : options.initialExtra.toInt ≤ 0 := Int64.le_iff_toInt_le.mp hzero
  have hword := toInt_sub_length hset (Int.lt_of_le_of_lt hnegative (by decide))
  rw [Int64.ofInt_toInt] at hword
  rw [behind, hword]
  rfl

/-- The position that the options set does not lie before the assigned string. -/
theorem MapOptions.start_assigned (hzero : options.initialExtra ≤ 0) :
    0 ≤ (⟨0, options.initialExtra.toInt⟩ : Cursor).assigned := by
  have hnegative : options.initialExtra.toInt ≤ 0 := Int64.le_iff_toInt_le.mp hzero
  simp only [Cursor.assigned]
  omega

section Walked

variable (hzero : options.initialExtra ≤ 0)
  (hset : -(lengthLimit : Int) ≤ options.initialExtra.toInt - front.length)
  (hstop : (options.stop back).toNat + front.length < lengthLimit)

include hzero hset hstop

theorem walked_behind :
    Mapper.walked closingTags fragment container { value := .str (front ++ back), tracking }
        (options.behind front.length) =
      (Mapper.walked closingTags fragment container { value := .str back, tracking }
        options).behind front.length := by
  let mapper := Mapper.ofAssignment .checked closingTags fragment container
    { value := .str back, tracking } options
  have hshifts := (mapper.parallel_shifts front).content container
  rw [Mapper.walked,
    Mapper.ofAssignment_behind closingTags fragment container front back tracking options hstop,
    options.start_behind front hzero hset]
  exact hshifts.moved _ (options.start_assigned hzero)

theorem map_behind_eq :
    (map closingTags fragment container { value := .str (front ++ back), tracking }
        (options.behind front.length)).said =
      (map closingTags fragment container { value := .str back, tracking } options).behind
        front := by
  let assigned : Operand RecordId := { value := .str back, tracking }
  let mapper := Mapper.ofAssignment .checked closingTags fragment container assigned options
  let start : Cursor := ⟨0, options.initialExtra.toInt⟩
  have hpos : 0 ≤ start.assigned := options.start_assigned hzero
  have hshifts := (mapper.parallel_shifts front).content container
  have hending := Mapper.ending_behind front mapper hstop (mapper.content container start).1
  rw [← options.stop_behind, ← hshifts.moved start hpos] at hending
  have hmap : map closingTags fragment container assigned options =
      (mapper.content container start).2 ++
        mapper.ending (options.stop back) (mapper.content container start).1 := rfl
  rw [hmap, Report.behind_append, ← hshifts.said start hpos, ← hending, ← Report.said_append,
    ← options.start_behind front hzero hset]
  rw [map, mapIn,
    Mapper.ofAssignment_behind closingTags fragment container front back tracking options hstop]
  rfl

end Walked

end Assignment

/-- A text in front of the assigned string shifts a mapping and changes nothing else, if the
    characters before the first node and the end of the content are counted from in front of it. The
    origins are the same but for the longer string and the number of added characters; mismatches
    are found at the same places of the markup; and whatever is looked up is found as far behind as
    the text is long, as long as no sum leaves its word. None does where the strings are short. -/
theorem map_behind (closingTags : ClosingTags) (fragment : Fragment) (container : NodeId)
    (front back : String) (tracking : Option RecordId) (options : MapOptions)
    (hzero : options.initialExtra ≤ 0)
    (hset : -(lengthLimit : Int) ≤ options.initialExtra.toInt - front.length)
    (hlength : (front ++ back).length < lengthLimit)
    (hend : ∀ stop, options.contentEnd = some stop → stop.toNat + front.length < lengthLimit) :
    let assigned : Operand RecordId := { value := .str back, tracking }
    let assigned' : Operand RecordId := { value := .str (front ++ back), tracking }
    let report := map closingTags fragment container assigned options
    let report' := map closingTags fragment container assigned' { options with
      initialExtra := options.initialExtra - Int64.ofNat front.length
      contentEnd := options.contentEnd.map (· + UInt64.ofNat front.length) }
    report'.origins = report.origins.map (·.behind front) ∧
    report'.diagnostics = report.diagnostics.map (·.behind front.length) ∧
    (report.overflows = false → report'.overflows = false →
      (∀ mapped ∈ report.origins,
        (mapped.behind front).origin.extra.toInt = mapped.origin.extra.toInt - front.length) ∧
      ∀ index < lengthLimit, (Mapping.ofMapped report'.origins).wrapsAt index = false →
        (Mapping.ofMapped report'.origins).originAt index =
          ((Mapping.ofMapped report.origins).originAt index).map (·.behind front)) ∧
    (max (-options.initialExtra.toInt) back.length + front.length +
        (Mapper.walked closingTags fragment container assigned options).written < lengthLimit →
      (∀ mapped ∈ report.origins,
        (mapped.behind front).origin.extra.toInt = mapped.origin.extra.toInt - front.length) ∧
      ∀ index, (Mapping.ofMapped report'.origins).originAt index =
        ((Mapping.ofMapped report.origins).originAt index).map (·.behind front)) := by
  intro assigned assigned' report report'
  let mapper := Mapper.ofAssignment .checked closingTags fragment container assigned options
  let start : Cursor := ⟨0, options.initialExtra.toInt⟩
  let stop := Mapper.walked closingTags fragment container assigned options
  have hstopWord := options.stop_lt front back hlength hend
  have hreport : report'.said = report.behind front :=
    map_behind_eq closingTags fragment container front back tracking options hzero hset hstopWord
  have horigins' : report'.origins = report.origins.map (·.behind front) :=
    congrArg Report.origins hreport
  have hpos : 0 ≤ start.assigned := options.start_assigned hzero
  have hset' : start.assigned = -options.initialExtra.toInt := Int.zero_sub _
  have hchars : mapper.source.chars.length = back.length := String.length_toList
  have hreach : ∀ mapped ∈ report.origins, mapper.InReach start stop mapped :=
    Mapper.inReach_map closingTags fragment container assigned options
  have hadded : ∀ mapped ∈ report.origins,
      ∃ extra ∈ start.extra :: (mapper.content container start).2.sums,
        mapped.origin.extra = Int64.ofInt extra ∧
          -stop.assigned ≤ extra ∧ extra ≤ stop.written - start.assigned :=
    Mapper.exists_extra_map closingTags fragment container assigned options
  refine ⟨horigins', congrArg Report.diagnostics hreport, fun hfits hfits' => ?_,
    fun hlimit => ?_⟩
  · obtain ⟨-, hwritten⟩ := walked_words hfits
    have hends : stop.assigned + front.length < lengthLimit := by
      rw [← Mapper.assigned_behind stop front.length, ← walked_behind closingTags fragment
        container front back tracking options hzero hset hstopWord]
      exact (walked_words hfits').1
    refine ⟨fun mapped hmem => ?_, fun index hindex hwraps => ?_⟩
    · obtain ⟨extra, hcount, hextra, hlow, -⟩ := hadded mapped hmem
      have hword := Origin.isSigned_iff.mp (isSigned_counts hfits extra hcount)
      exact toInt_extra_behind hextra (by omega) hword.2
    · rw [horigins']
      refine originAt_behind fun mapped hmem hspan => (hreach mapped hmem).resolve?_behind_of_fits
        hpos ?_ hends hwritten hindex fun hcovers => ?_
      · rw [String.length_append] at hlength
        omega
      · rw [Mapping.wrapsAt, horigins', consulted?_behind, hspan, Option.map_some,
          Option.any_some, Bool.or_eq_false_iff, hcovers, Bool.true_and] at hwraps
        simpa only [Bool.not_eq_false'] using hwraps.2
  · have hshort : max start.assigned mapper.source.chars.length + front.length + stop.written <
        lengthLimit := by
      rw [hset', hchars]
      exact hlimit
    have hbounded : stop.assigned + start.written ≤
        max start.assigned mapper.source.chars.length + stop.written :=
      ((mapper.composes_bounds.content container).advances start).bounded
    refine ⟨fun mapped hmem => ?_, fun index => ?_⟩
    · obtain ⟨extra, -, hextra, hlow, hhigh⟩ := hadded mapped hmem
      have hnone : start.written = 0 := rfl
      exact toInt_extra_behind hextra (by omega) (by omega)
    · rw [horigins']
      exact originAt_behind fun mapped hmem _ => (hreach mapped hmem).resolve?_behind hpos hshort

/-- A string that the tree does not come from, with two characters in front and an end of the
    content before its own. -/
theorem map_behind_misaligned :
    let assigned : Operand RecordId := { value := .str "<p  title>/>&amp;b" }
    let assigned' : Operand RecordId := { value := .str "xx<p  title>/>&amp;b" }
    let report := map ClosingTags.byVoidTags.folded framed 0 assigned { contentEnd := some 16 }
    let report' := map ClosingTags.byVoidTags.folded framed 0 assigned'
      { initialExtra := -2, contentEnd := some 18 }
    report'.origins = report.origins.map (·.behind "xx") ∧
    report'.diagnostics = report.diagnostics.map (·.behind 2) ∧
    (∀ mapped ∈ report.origins,
      (mapped.behind "xx").origin.extra.toInt = mapped.origin.extra.toInt - 2) ∧
    (∀ index, (Mapping.ofMapped report'.origins).originAt index =
      ((Mapping.ofMapped report.origins).originAt index).map (·.behind "xx")) ∧
    report.diagnostics = [⟨2, 2, .valueWithoutEquals "title"⟩,
      ⟨64, 62, .endsElsewhere 62 16⟩] := by
  intro assigned assigned' report report'
  have hend : ∀ stop : UInt64, some 16 = some stop → stop.toNat + "xx".length < lengthLimit := by
    rintro stop ⟨⟩
    decide
  obtain ⟨horigins, hdiagnostics, hexact, hreach⟩ :=
    map_behind ClosingTags.byVoidTags.folded framed 0
    "xx" "<p  title>/>&amp;b" none { contentEnd := some 16 } (by decide) (by decide) (by decide)
    hend
  obtain ⟨hextra, -⟩ := hexact (by decide +kernel) (by decide +kernel)
  obtain ⟨-, hlookups⟩ := hreach (by decide +kernel)
  exact ⟨horigins, hdiagnostics, hextra, hlookups, by decide +kernel⟩

end Provenance.Markup
