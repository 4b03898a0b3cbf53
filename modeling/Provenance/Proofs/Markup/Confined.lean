import Provenance.Proofs.Markup.FixedPoint
import Provenance.Proofs.Markup.Leads
import Provenance.Proofs.Markup.Onward

/-! # Where a clean mapping leads

If a walk ends where the content ends, every span was passed over on both sides, and its
characters lead to assigned characters. The one exception are closing tags that were added for
elements with a slash at the end of their opening tag: the walk finds the slash only after it
has yielded the origin of the closing tag, which therefore leads as far beyond the opening tag
as it is long.
-/

namespace Provenance.Markup

namespace Mapper

/-- Whether an element was assigned with a slash, so that its opening tag ends at a position. -/
def SelfClosedAt (mapper : Mapper .checked) (position : Int) : Prop :=
  mapper.source.slice (position - 1) 2 = ['/', '>']

/-- Whether the characters of an origin lead to positions before a given one, unless they
    belong to a closing tag that was added. -/
def Inside (mapper : Mapper .checked) (high : Nat) (stop : Int) (mapped : MappedOrigin) : Prop :=
  ∃ target action start length extra offsets,
    mapped = mapper.origin target action start length extra offsets ∧ start + length ≤ high ∧
      ∀ relative < length, 0 ≤ assignedPosition start extra offsets relative ∧
        (assignedPosition start extra offsets relative < stop ∨ action = .closingTag ∧
          mapper.SelfClosedAt (assignedPosition start extra offsets relative - relative))

variable {mapper : Mapper .checked} {first second walk : Walk} {mapped : MappedOrigin} {high : Nat}
  {stop slack more : Int}

theorem Inside.mono (hinside : mapper.Inside high stop mapped) {higher : Nat} {later : Int}
    (hhigh : high ≤ higher) (hstop : stop ≤ later) : mapper.Inside higher later mapped := by
  obtain ⟨target, action, start, length, extra, offsets, heq, hlast, hpositions⟩ := hinside
  refine ⟨target, action, start, length, extra, offsets, heq, Nat.le_trans hlast hhigh,
    fun relative hlt => ⟨(hpositions relative hlt).1, ?_⟩⟩
  exact (hpositions relative hlt).2.imp_left fun hbefore => Int.lt_of_lt_of_le hbefore hstop

theorem SelfClosedAt.exists_eq {position : Int} (h : mapper.SelfClosedAt position) :
    ∃ front back, mapper.source.chars = front ++ '/' :: '>' :: back ∧
      position = front.length + 1 := by
  obtain ⟨front, back, hchars, hposition⟩ := Source.exists_of_slice (List.cons_ne_nil _ _) h
  exact ⟨front, back, hchars, by omega⟩

/-- What the words of an origin lead to. -/
theorem Inside.charIndex (hinside : mapper.Inside high stop mapped) (hhigh : high < lengthLimit)
    (hsource : mapper.source.chars.length < lengthLimit) (hstop : stop ≤ lengthLimit)
    {index place : Nat} (hcovers : mapped.origin.covers index = true)
    (hindex : mapped.origin.assignedIndex index = some place) :
    (place : Int) < stop ∨ mapped.origin.action = .closingTag ∧ mapper.SelfClosedAt
      (place - (index - mapped.origin.start.toNat : Nat)) := by
  obtain ⟨target, action, start, length, extra, offsets, rfl, hlast, hpositions⟩ := hinside
  have hwords : 2 * lengthLimit = UInt64.size := by decide
  have hstart : (UInt64.ofNat start).toNat = start := UInt64.toNat_ofNat_of_lt' (by omega)
  have hlength : (UInt64.ofNat length).toNat = length := UInt64.toNat_ofNat_of_lt' (by omega)
  obtain ⟨hle, hlt⟩ := Mapping.lt_of_covers hcovers
  simp only [origin, hstart, hlength] at hle hlt ⊢
  rw [assignedIndex_origin mapper target action extra offsets hle (by omega)] at hindex
  obtain ⟨hpos, hcases⟩ := hpositions (index - start) (by omega)
  have hbound : assignedPosition start extra offsets (index - start) < 2 * lengthLimit := by
    rcases hcases with hbefore | ⟨-, hclosed⟩
    · omega
    · obtain ⟨front, back, hchars, hposition⟩ := hclosed.exists_eq
      have hfront := congrArg List.length hchars
      rw [List.length_append, List.length_cons, List.length_cons] at hfront
      omega
  have hplace := eq_of_word (by omega) hbound hindex
  rw [hplace] at hcases
  exact hcases

/-- A stretch confines its origins if it moves forward and, unless it reports anything or ends
    behind the content, they lead to what it has passed over, or as far beyond as the slack. -/
structure Confines (mapper : Mapper .checked) (slack : Int) (walk : Walk) : Prop where
  written : ∀ cursor, cursor.written ≤ (walk cursor).1.written
  assigned : ∀ cursor, cursor.assigned ≤ (walk cursor).1.assigned
  inside : ∀ cursor, 0 ≤ cursor.assigned → (walk cursor).2.diagnostics = [] →
    (walk cursor).1.assigned ≤ mapper.source.contentEnd →
      ∀ mapped ∈ (walk cursor).2.origins,
        mapper.Inside (walk cursor).1.written ((walk cursor).1.assigned + slack) mapped

theorem Advances.confines (hadvances : mapper.Advances walk)
    (hinside : ∀ cursor, 0 ≤ cursor.assigned → (walk cursor).2.diagnostics = [] →
      (walk cursor).1.assigned ≤ mapper.source.contentEnd →
        ∀ mapped ∈ (walk cursor).2.origins,
          mapper.Inside (walk cursor).1.written ((walk cursor).1.assigned + slack) mapped) :
    mapper.Confines slack walk :=
  ⟨fun cursor => (hadvances cursor).written, fun cursor => (hadvances cursor).assigned, hinside⟩

theorem Advances.confines_of_quiet (hadvances : mapper.Advances walk)
    (hquiet : ∀ cursor, (walk cursor).2.origins = []) : mapper.Confines slack walk :=
  hadvances.confines fun cursor _ _ _ mapped hmem => by
    rw [hquiet cursor] at hmem
    cases hmem

/-- A second stretch that moves on takes up the slack of the first. -/
theorem Confines.andThen (hfirst : mapper.Confines slack first)
    (hsecond : mapper.Confines more second)
    (hslack : ∀ cursor, cursor.assigned + slack ≤ (second cursor).1.assigned + more) :
    mapper.Confines more (first.andThen second) := by
  refine ⟨fun cursor => Nat.le_trans (hfirst.written cursor) (hsecond.written _),
    fun cursor => Int.le_trans (hfirst.assigned cursor) (hsecond.assigned _), ?_⟩
  intro cursor hpos hdiagnostics hend mapped hmem
  obtain ⟨hbefore, hafter⟩ := List.append_eq_nil_iff.mp hdiagnostics
  rcases List.mem_append.mp hmem with hmem | hmem
  · have hstop := Int.le_trans (hsecond.assigned (first cursor).1) hend
    exact (hfirst.inside cursor hpos hbefore hstop mapped hmem).mono (hsecond.written _) (hslack _)
  · exact hsecond.inside _ (Int.le_trans hpos (hfirst.assigned cursor)) hafter hend mapped hmem

theorem Confines.followed (hfirst : mapper.Confines slack first)
    (hsecond : mapper.Confines slack second) : mapper.Confines slack (first.andThen second) :=
  hfirst.andThen hsecond fun cursor => Int.add_le_add_right (hsecond.assigned cursor) slack

theorem confines_stay (mapper : Mapper .checked) (slack : Int) : mapper.Confines slack .stay :=
  mapper.advances_stay.confines_of_quiet fun _ => rfl

theorem confines_emit (mapper : Mapper .checked) (target : Target) (action : Action) :
    mapper.Confines 0 (mapper.emit target action 0) := by
  refine (mapper.advances_emit target action 0).confines fun cursor _ _ _ mapped hmem => ?_
  rw [List.mem_singleton.mp hmem]
  exact ⟨target, action, cursor.written, 0, cursor.extra, none, rfl, Nat.le_refl _,
    fun relative hlt => absurd hlt (Nat.not_lt_zero _)⟩

theorem confines_span (mapper : Mapper .checked) (target : Target) (action : Action)
    (length : Nat) : mapper.Confines 0 (mapper.span target action length) := by
  refine (mapper.advances_span target action length).confines fun cursor hpos _ _ mapped hmem => ?_
  rw [List.mem_singleton.mp hmem]
  refine ⟨target, action, cursor.written, length, cursor.extra, none, rfl, Nat.le_refl _,
    fun relative hlt => ?_⟩
  rw [assignedPosition_none]
  simp only [span, Walk.andThen, emit, Walk.advance, Cursor.assigned] at hpos ⊢
  exact ⟨by omega, .inl (by omega)⟩

theorem confines_text (mapper : Mapper .checked) (id : NodeId) (parentTag content : String) :
    mapper.Confines 0 (mapper.text id parentTag content) := by
  refine (mapper.advances_text id parentTag content).confines fun cursor hpos _ hend mapped hmem =>
    ?_
  let written := escapeText parentTag content.toList
  have hstop : (mapper.text id parentTag content cursor).1.assigned =
      cursor.assigned + written.length -
        (mapper.source.table parentTag written cursor.assigned).2 := by
    simp only [text, Cursor.assigned, written]
    omega
  rw [hstop] at hend ⊢
  obtain ⟨hlength, hentries⟩ := mapper.source.table_confined parentTag hend
  rw [List.mem_singleton.mp hmem]
  refine ⟨_, _, _, _, _, _, rfl, Nat.le_refl _, fun relative hlt => ?_⟩
  have hthere := List.getElem?_eq_getElem (show relative < _ from hlength ▸ hlt)
  obtain ⟨hlow, hhigh⟩ := hentries relative _ hthere
  have hposition := assignedPosition_table hthere cursor.written cursor.extra
  rw [← Cursor.assigned] at hposition
  exact ⟨hposition ▸ Int.le_trans hpos hlow, .inl (hposition ▸ Int.add_zero _ ▸ hhigh)⟩

theorem confines_comment (mapper : Mapper .checked) (id : NodeId) (content : String) :
    mapper.Confines 0 (mapper.comment id content) :=
  (mapper.confines_span _ _ _).followed ((mapper.confines_span _ _ _).followed
    ((mapper.confines_span _ _ _).followed (mapper.confines_stay 0)))

/-- The closing quote of a value without quotes leads to the character after the attribute. -/
theorem confines_attribute (mapper : Mapper .checked) (id : NodeId) (tag : String)
    (attr : Attribute) : mapper.Confines 1 (mapper.attributeSpans id tag attr) := by
  refine (mapper.advances_attribute id tag attr).confines
    fun cursor hpos hclean hend mapped hmem => ?_
  have hmismatches : (mapper.spelling tag attr cursor.assigned).mismatches = [] :=
    List.map_eq_nil_iff.mp hclean
  have hstop : (mapper.attributeSpans id tag attr cursor).1.assigned = cursor.assigned +
      (1 + attr.name.length + ((escapeAttribute attr.value.toList).length + 3)) -
        (mapper.spelling tag attr cursor.assigned).added := by
    simp only [attributeSpans, Cursor.assigned]
    omega
  rw [hstop] at hend ⊢
  obtain ⟨hfirst, hlast, hlength, hentries⟩ := spelling_confined hmismatches hend
  simp only [attributeSpans, List.mem_cons, List.not_mem_nil, or_false] at hmem ⊢
  rcases hmem with rfl | rfl
  · refine ⟨_, _, _, _, _, _, rfl, Nat.le_add_right _ _, fun relative hlt => ?_⟩
    have hoffset := @List.getElem?_replicate_of_lt _
      (mapper.spelling tag attr cursor.assigned).nameOffset (1 + attr.name.length) relative hlt
    rw [assignedPosition_some hoffset, ← Cursor.assigned]
    exact ⟨by omega, .inl (by omega)⟩
  · refine ⟨_, _, _, _, _, _, rfl, Nat.le_refl _, fun relative hlt => ?_⟩
    have hthere := List.getElem?_eq_getElem (show relative < _ from hlength ▸ hlt)
    have hentry := hentries relative _ hthere
    have hassigned : cursor.assigned = cursor.written - cursor.extra := rfl
    rw [assignedPosition_some hthere]
    exact ⟨by omega, .inl (by omega)⟩

theorem confines_tagBlanks (mapper : Mapper .checked) (slack : Int) :
    mapper.Confines slack mapper.tagBlanks :=
  mapper.advances_tagBlanks.confines_of_quiet fun _ => rfl

theorem confines_needlessEnd (mapper : Mapper .checked) (slack : Int) (tag : String) :
    mapper.Confines slack (mapper.needlessEnd tag) where
  written cursor := Nat.le_of_eq (mapper.needlessEnd_bounds tag cursor).1.symm
  assigned cursor := (mapper.needlessEnd_bounds tag cursor).2.1
  inside _ _ _ _ _ hmem := nomatch hmem

/-- Where a stretch moves on, it does so after another one. -/
theorem Confines.moves (hfirst : mapper.Confines slack first)
    (hsecond : ∀ cursor, cursor.assigned + more ≤ (second cursor).1.assigned) (cursor : Cursor) :
    cursor.assigned + more ≤ (first.andThen second cursor).1.assigned :=
  Int.le_trans (Int.add_le_add_right (hfirst.assigned cursor) more) (hsecond _)

/-- The end of an opening tag takes up what the last attribute leads to behind itself. -/
theorem confines_opening (mapper : Mapper .checked) (id : NodeId) (tag : String)
    (attributes : List Attribute) : mapper.Confines 0 (mapper.opening id tag attributes) := by
  have hattributes : mapper.Confines 1 (.all (attributes.map (mapper.attributeSpans id tag))) :=
    Walk.all_of (mapper.confines_stay 1) Confines.followed fun attr _ =>
      mapper.confines_attribute id tag attr
  have hneedless : mapper.Confines 1
      (if mapper.closingTags tag then .stay else mapper.needlessEnd tag) := by
    split
    · exact mapper.confines_stay 1
    · exact mapper.confines_needlessEnd 1 tag
  have hend : mapper.Confines 0 (.all [mapper.span (.node id) .openingTagEnd 1]) :=
    (mapper.confines_span _ _ _).followed (mapper.confines_stay 0)
  -- What comes between the attributes and the end yields no origin, and the end moves on by one.
  have hone : ∀ cursor : Cursor, cursor.assigned + 1 ≤
      (Walk.all [mapper.span (.node id) .openingTagEnd 1] cursor).1.assigned := by
    intro cursor
    show (cursor.written : Int) - cursor.extra + 1 ≤ (cursor.written + 1 : Nat) - cursor.extra
    omega
  have hblanks := mapper.confines_tagBlanks 1
  have hbefore := (hneedless.andThen hend fun cursor => by simpa using hone cursor)
  have htwo := hneedless.moves hone
  have hinside := hblanks.andThen hbefore fun cursor => by simpa using htwo cursor
  exact (mapper.confines_span _ _ _).followed
    (hattributes.andThen hinside fun cursor => by simpa using hblanks.moves htwo cursor)

/-- A closing tag that was added counts for one character, the end of the opening tag. -/
theorem assigned_closing (mapper : Mapper .checked) (id : NodeId) (tag : String) (cursor : Cursor) :
    (mapper.closing id tag cursor).1.assigned = cursor.assigned +
      if mapper.source.slice (cursor.assigned - 1) 2 = ['/', '>'] then (1 : Int)
      else (3 + tag.length : Nat) := by
  let length := 3 + tag.length
  let behind : Cursor := ⟨cursor.written + length, cursor.extra⟩
  have hbehind : behind.assigned = cursor.assigned + length := by
    simp only [behind, Cursor.assigned]
    omega
  have hback : behind.assigned - 1 - length = cursor.assigned - 1 := by omega
  show (mapper.selfClosed length behind).1.assigned = _
  simp only [selfClosed, assigned_add]
  rw [hback, hbehind]
  split
  · omega
  · omega

/-- The closing tag of an element that was assigned with a slash leads beyond the character that
    it was assigned as. -/
theorem confines_closing (mapper : Mapper .checked) (id : NodeId) (tag : String) :
    mapper.Confines 0 (mapper.closing id tag) := by
  refine (mapper.advances_closing id tag).confines fun cursor hpos _ _ mapped hmem => ?_
  rw [assigned_closing]
  rw [List.mem_singleton.mp hmem]
  refine ⟨_, _, _, _, _, _, rfl, Nat.le_refl _, fun relative hlt => ?_⟩
  rw [assignedPosition_none, ← Cursor.assigned, Int.add_sub_cancel, SelfClosedAt]
  refine ⟨by omega, ?_⟩
  split
  · rename_i hslash
    exact .inr ⟨rfl, hslash⟩
  · exact .inl (by omega)

/-- A walk that yields no diagnostic leads to what it has passed over. -/
theorem composes_confines (mapper : Mapper .checked) : mapper.Composes (mapper.Confines 0) where
  stay := mapper.confines_stay 0
  andThen := Confines.followed
  skip count := (mapper.advances_skip count).confines_of_quiet fun _ => rfl
  advance count := (mapper.advances_advance count).confines_of_quiet fun _ => rfl
  mismatch cause := (mapper.advances_mismatch cause).confines_of_quiet fun _ => rfl
  mark _ := mapper.confines_emit _ _
  text := mapper.confines_text
  comment := mapper.confines_comment
  opening _ _ := mapper.confines_opening _ _ _
  closing := mapper.confines_closing

end Mapper

/-- A mapping that yields no diagnostic only leads to characters of the assigned string, but for
    the closing tags of elements that were assigned with a slash at the end of their opening
    tag: those begin at the end of that tag and go on behind it. -/
theorem map_clean_leads_inside {fragment : Fragment} {container : NodeId}
    {closingTags : ClosingTags} (hbuilt : fragment.Built) (hproper : fragment.Proper container)
    (hsize : (fragment.innerHtml container).length < lengthLimit)
    (hremembers : closingTags.Remembers .byVoidTags) {assigned : Operand RecordId}
    (hlength : (assignedText assigned).length < lengthLimit)
    (hclean : (map closingTags fragment container assigned {}).diagnostics = []) {index : Nat}
    {resolved : ResolvedOrigin}
    (hresolved : (Snapshot.capture fragment container
      (map closingTags fragment container assigned {}).origins).originAt index = some resolved) :
    resolved.charIndex < (assignedText assigned).length ∨
      resolved.origin.action = .closingTag ∧
        ∃ front back, (assignedText assigned).toList = front ++ '/' :: '>' :: back ∧
          resolved.charIndex = front.length + 1 + (index - resolved.origin.start.toNat) := by
  let mapper := Mapper.ofAssignment .checked closingTags fragment container assigned {}
  have hsource : mapper.source = ⟨(assignedText assigned).toList, _⟩ :=
    Mapper.contentEnd_ofAssignment closingTags fragment container String.ofList_toList.symm
      (String.length_toList ▸ hlength)
  obtain ⟨hdiagnostics, hend⟩ := (Mapper.clean_map_iff ..).mp hclean
  have hinside := (mapper.composes_confines.content container).inside ⟨0, 0⟩ (Int.le_refl 0)
    hdiagnostics (Int.le_of_eq hend)
  have hlays : mapper.Lays _ _ := Mapper.lays_content hbuilt hremembers.eq_not_isVoid hproper
  have hwritten : (mapper.content container ⟨0, 0⟩).1.written =
      (fragment.innerHtml container).length := by
    rw [(hlays ⟨0, 0⟩).1, Nat.zero_add]
    exact congrArg List.length (Fragment.written_contentPieces [] hbuilt hproper)
  rw [hwritten, hend, Int.add_zero] at hinside
  rw [Snapshot.originAt] at hresolved
  split at hresolved
  · obtain ⟨horigin, hcovers, hindex⟩ := Mapping.exists_of_originAt hresolved
    obtain ⟨mapped, hmem, hmapped⟩ := List.mem_map.mp horigin
    rw [Mapper.origins_map] at hmem
    rw [← hmapped] at hcovers hindex ⊢
    have hcases := (hinside mapped hmem).charIndex hsize (hsource ▸ String.length_toList ▸ hlength)
      (hsource ▸ String.length_toList ▸ Int.le_of_lt (Int.ofNat_lt.mpr hlength)) hcovers hindex
    rw [hsource, String.length_toList] at hcases
    rcases hcases with hinside | ⟨haction, hclosed⟩
    · exact .inl (Int.ofNat_lt.mp hinside)
    · obtain ⟨front, back, hchars, hposition⟩ := hclosed.exists_eq
      rw [hsource] at hchars
      exact .inr ⟨haction, front, back, hchars, by omega⟩
  · cases hresolved

/-- A container that holds one empty element. -/
def division : Fragment := (Fragment.new "div").appendElement 0 "div" []

theorem division_built : division.Built := .element (.new _) _ _ _

/-- What the lookup finds for a closing tag that was added. -/
theorem originAt_division {index : Nat} (hlow : 5 ≤ index) (hhigh : index < 11) :
    ∃ resolved, (Snapshot.capture division 0 (map ClosingTags.byVoidTags.folded division 0
      { value := .str "<div/>" } {}).origins).originAt index = some resolved ∧
        resolved.charIndex = index := by
  let mapper := Mapper.ofAssignment .checked ClosingTags.byVoidTags.folded division 0
    { value := .str "<div/>" } {}
  let mapped := mapper.origin (.node 1) .closingTag 5 6 0 none
  have hhtml : (division.innerHtml 0).length = 11 := by decide
  have hsize : (division.innerHtml 0).length < lengthLimit := by
    rw [hhtml]
    decide
  have hmem : mapped ∈ (map ClosingTags.byVoidTags.folded division 0 { value := .str "<div/>" }
      {}).origins := by decide +kernel
  have hleads : mapper.LeadsTo (division.innerHtml 0).length mapped index index := by
    refine ⟨_, _, 5, 6, 0, none, rfl, hlow, hhigh, Nat.le_of_eq hhtml.symm, ?_⟩
    rw [assignedPosition_none]
    omega
  exact Option.map_eq_some_iff.mp (originAt_of_leadsTo division_built (by decide) hsize
    (ClosingTags.folded_remembers _) hmem hleads (by simp only [lengthLimit]; omega))

theorem map_clean_leads_inside_division :
    ∃ resolved, (Snapshot.capture division 0 (map ClosingTags.byVoidTags.folded division 0
      { value := .str "<div/>" } {}).origins).originAt 5 = some resolved ∧
        (resolved.charIndex < "<div/>".length ∨ resolved.origin.action = .closingTag ∧
          ∃ front back, "<div/>".toList = front ++ '/' :: '>' :: back ∧
            resolved.charIndex = front.length + 1 + (5 - resolved.origin.start.toNat)) := by
  have hsize : (division.innerHtml 0).length < lengthLimit := by decide
  have hlength : (assignedText { value := .str "<div/>" }).length < lengthLimit := by decide
  obtain ⟨resolved, hresolved, -⟩ := originAt_division (by decide) (show 5 < 11 by decide)
  exact ⟨resolved, hresolved, map_clean_leads_inside division_built (by decide) hsize
    (ClosingTags.folded_remembers _) hlength (by decide +kernel) hresolved⟩

/-- The closing tag of an element that was assigned as `<div/>` leads behind the end of the
    assigned string, and nothing is reported. -/
theorem map_clean_leads_beyond :
    division.Built ∧ division.Proper 0 ∧
      (map ClosingTags.byVoidTags.folded division 0 { value := .str "<div/>" } {}).diagnostics =
        [] ∧
      ∃ resolved, (Snapshot.capture division 0 (map ClosingTags.byVoidTags.folded division 0
        { value := .str "<div/>" } {}).origins).originAt 6 = some resolved ∧
          ¬ resolved.charIndex < "<div/>".length := by
  obtain ⟨resolved, hresolved, hindex⟩ := originAt_division (by decide) (show 6 < 11 by decide)
  refine ⟨division_built, by decide, by decide +kernel, resolved, hresolved, ?_⟩
  rw [hindex]
  decide

end Provenance.Markup
