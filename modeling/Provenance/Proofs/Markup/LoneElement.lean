import Provenance.Proofs.Markup.FixedPoint
import Provenance.Proofs.Markup.Openings
import Provenance.Proofs.Markup.Spelling
import Provenance.Proofs.Markup.Stepping

/-! # An element by itself

The written form of one element without children, assigned to its container. The tag decides
whether references in the content of an element are kept as raw text, and the mapper asks the
tag for attributes as well. As attributes are always decoded, that is right for every tag but the
one whose content is kept: there an ampersand in a value puts the walk out of step.
-/

namespace Provenance.Markup

open Provenance.Text (isBlank)

/-- Pieces without a gap that has text leave no character out. -/
theorem Piece.gapAt_of_empty {pieces : List Piece} (h : ∀ text, .gap text ∈ pieces → text = [])
    (index : Nat) : gapAt pieces index = false := by
  induction pieces generalizing index with
  | nil => rfl
  | cons piece pieces ih =>
      have hrest := ih (fun text hmem => h text (List.mem_cons_of_mem _ hmem))
      cases piece with
      | span target action text => simp [gapAt, hrest]
      | gap text => simp [gapAt, hrest, h text List.mem_cons_self]

/-- What an ampersand in a value is written as. -/
def ampersand : List Char := ['&', 'a', 'm', 'p', ';']

theorem escapeAttribute_split {value clear more : List Char} (h : value = clear ++ '&' :: more) :
    escapeAttribute value =
      escapeAttribute clear ++ (ampersand ++ escapeAttribute more) := by
  rw [h]
  simp [escapeAttribute, escapeAttributeChar, ampersand]

/-- Whether a container holds one element, which has a closing tag and no children. -/
structure Fragment.Lone (fragment : Fragment) (container id : NodeId) (tag : String)
    (attributes : List Attribute) : Prop where
  children : fragment.children container = [id]
  kind : fragment.kind? id = some (.element tag attributes)
  childless : fragment.children id = []
  closed : isVoid tag = false

namespace Fragment.Lone

variable {fragment : Fragment} {container id : NodeId} {tag : String}
  {attributes : List Attribute} (hlone : fragment.Lone container id tag attributes)

include hlone

theorem exists_get? : ∃ node, fragment.get? id = some node ∧
    node.kind = .element tag attributes ∧ node.children = [] := by
  cases hnode : fragment.get? id with
  | none =>
      have hkind := hlone.kind
      simp [kind?, hnode] at hkind
  | some node =>
      have hkind := hlone.kind
      rw [kind_of_get hnode] at hkind
      exact ⟨node, rfl, Option.some.inj hkind,
        (children_eq_of_get hnode).symm.trans hlone.childless⟩

theorem proper : fragment.Proper container := by
  intro _ hself
  rw [hlone.children, List.mem_singleton] at hself
  have hchildren := hlone.children
  rw [hself, hlone.childless] at hchildren
  cases hchildren

theorem innerHtml : fragment.innerHtml container =
    openingTag tag attributes ++ closingTag tag := by
  obtain ⟨node, hnode, hkind, hchildren⟩ := hlone.exists_get?
  simp [Fragment.innerHtml, hlone.children, nodeHtml, hnode, hkind, hchildren, hlone.closed]

theorem hasClosingTag {closingTags : ClosingTags} (hremembers : closingTags.Remembers .byVoidTags) :
    closingTags tag = true := by
  rw [show closingTags tag = !isVoid tag from hremembers.eq_not_isVoid tag, hlone.closed]
  rfl

theorem eq_of_below {other : NodeId} (hbelow : fragment.Below container other) : other = id := by
  induction hbelow with
  | child hchild =>
      rw [hlone.children] at hchild
      exact List.mem_singleton.mp hchild
  | step _ _ hchild ih =>
      rw [ih, hlone.childless] at hchild
      cases hchild

theorem gapAt (hbuilt : fragment.Built) (index : Nat) :
    Piece.gapAt (fragment.contentPieces [] container) index = false := by
  refine Piece.gapAt_of_empty (fun text hmem => ?_) index
  cases explains_contentPieces [] hbuilt hlone.proper _ hmem with
  | inl hignored =>
      obtain ⟨other, hmem, -⟩ := hignored
      cases hmem
  | inr hframe =>
      obtain ⟨other, hbelow, -, rfl⟩ := hframe
      rw [hlone.eq_of_below hbelow, Fragment.innerHtml, hlone.childless]
      rfl

omit hlone in
/-- The written form up to one of the attributes. -/
theorem innerHtml_split {front back : List Attribute} {attr : Attribute}
    (hlone : fragment.Lone container id tag (front ++ attr :: back)) :
    ∃ rest, fragment.innerHtml container =
      '<' :: tag.toList ++ front.flatMap attributeHtml ++ (attributeHtml attr ++ rest) := by
  refine ⟨back.flatMap attributeHtml ++ ['>'] ++ closingTag tag, ?_⟩
  simp [hlone.innerHtml, openingTag]

omit hlone in
/-- Where an ampersand of a value stands in the written form. -/
theorem take_ampersand {front back : List Attribute} {attr : Attribute} {clear more : List Char}
    (hlone : fragment.Lone container id tag (front ++ attr :: back))
    (hvalue : attr.value.toList = clear ++ '&' :: more) :
    ((fragment.innerHtml container).drop (1 + tag.length + (front.flatMap attributeHtml).length +
      (attr.name.length + 3) + (escapeAttribute clear).length)).take 5 = ampersand := by
  obtain ⟨rest, hhtml⟩ := hlone.innerHtml_split
  have hsplit : fragment.innerHtml container = ('<' :: tag.toList ++ front.flatMap attributeHtml ++
      (' ' :: attr.name.toList ++ ['=', '"'] ++ escapeAttribute clear)) ++
        (ampersand ++ (escapeAttribute more ++ '"' :: rest)) := by
    rw [hhtml, attributeHtml, escapeAttribute_split hvalue]
    simp
  have hlength : ('<' :: tag.toList ++ front.flatMap attributeHtml ++
      (' ' :: attr.name.toList ++ ['=', '"'] ++ escapeAttribute clear)).length =
        1 + tag.length + (front.flatMap attributeHtml).length + (attr.name.length + 3) +
          (escapeAttribute clear).length := by
    simp only [List.length_append, List.length_cons, List.length_nil, String.length_toList]
    omega
  rw [hsplit, List.drop_left' hlength]
  rfl

end Fragment.Lone

namespace Mapper

variable {mapper : Mapper .checked} {container id : NodeId} {tag : String}
    {attributes : List Attribute}

/-- The walk over a container with one element. -/
theorem content_of_lone (hlone : mapper.fragment.Lone container id tag attributes)
    (hclosing : mapper.closingTags tag = true) (hignored : mapper.ignored = []) :
    mapper.content container = (mapper.mark container).andThen
      (((mapper.opening id tag attributes).andThen
        (.all [if tag = "iframe" then .advance 0 else (mapper.mark id).andThen .stay,
          mapper.closing id tag])).andThen .stay) := by
  obtain ⟨node, hnode, hkind, hchildren⟩ := hlone.exists_get?
  have hinner : mapper.fragment.innerHtml id = [] := by
    rw [Fragment.innerHtml, hlone.childless]
    rfl
  simp [content, hlone.children, Mapper.node, hignored, hnode, hkind, hclosing, hchildren, hinner,
    Walk.all]

/-- The walk keeps a single element, unless references in it would be kept. -/
theorem keeps_lone (hend : mapper.source.contentEnd = mapper.source.chars.length)
    (hlone : mapper.fragment.Lone container id tag attributes)
    (hclosing : mapper.closingTags tag = true) (hignored : mapper.ignored = [])
    (hnames : ∀ attr ∈ attributes, ∀ c, attr.name.toList.head? = some c → isBlank c = false)
    (hkeeps : keepsReferences tag = true → ∀ attr ∈ attributes, '&' ∉ attr.value.toList) :
    mapper.Keeps (mapper.content container) (mapper.fragment.innerHtml container) [] := by
  have hopening : ∀ rest, mapper.Keeps (mapper.opening id tag attributes)
      (openingTag tag attributes) rest := by
    refine fun rest => keeps_opening hend id hnames hkeeps fun hfalse => ?_
    rw [hclosing] at hfalse
    cases hfalse
  have hbetween : ∀ rest, mapper.Keeps
      (if tag = "iframe" then .advance 0 else (mapper.mark id).andThen .stay) [] rest := by
    intro rest
    split
    · exact keeps_advance mapper [] rest
    · exact (keeps_emit mapper _ _ _).andThen (keeps_stay mapper rest)
  have hall : mapper.Keeps (mapper.content container)
      ([] ++ ((openingTag tag attributes ++ ([] ++ (closingTag tag ++ []))) ++ [])) [] := by
    rw [content_of_lone hlone hclosing hignored]
    exact (keeps_emit mapper _ _ _).andThen (((hopening _).andThen ((hbetween _).andThen
      ((keeps_closing mapper id tag _).andThen (keeps_stay mapper _)))).andThen
        (keeps_stay mapper []))
  rw [hlone.innerHtml]
  simpa using hall

/-! ## Up to the first ampersand -/

/-- Whether a walk from a cursor on comes to a part of it from another cursor on, and has made no
    correction before. -/
def Reaches (walk : Walk) (cursor : Cursor) (part : Walk) (start : Cursor) : Prop :=
  ∃ front back, (walk cursor).2.origins = front ++ ((part start).2.origins ++ back) ∧
    ∀ mapped ∈ front, mapped.origin.Plain

section Reaches

variable {first second walk part : Walk} {cursor start : Cursor} {before text rest : List Char}

theorem Reaches.refl (walk : Walk) (cursor : Cursor) : Reaches walk cursor walk cursor :=
  ⟨[], [], by simp, fun _ hmem => nomatch hmem⟩

theorem Reaches.earlier (h : Reaches first cursor part start) (second : Walk) :
    Reaches (first.andThen second) cursor part start := by
  obtain ⟨front, back, horigins, hplain⟩ := h
  refine ⟨front, back ++ (second (first cursor).1).2.origins, ?_, hplain⟩
  change (first cursor).2.origins ++ _ = _
  rw [horigins]
  simp

theorem Keeps.reaches (hkeeps : mapper.Keeps first text rest)
    (hsource : mapper.source.chars = before ++ (text ++ rest))
    (h : Reaches second ⟨(before ++ text).length, 0⟩ part start) :
    Reaches (first.andThen second) ⟨before.length, 0⟩ part start := by
  obtain ⟨hmove, -, hfirst⟩ := hkeeps before hsource
  obtain ⟨front, back, horigins, hplain⟩ := h
  refine ⟨(first ⟨before.length, 0⟩).2.origins ++ front, back, ?_, ?_⟩
  · change _ ++ (second (first ⟨before.length, 0⟩).1).2.origins = _
    rw [hmove, ← List.length_append, horigins, List.append_assoc]
  · intro mapped hmem
    cases List.mem_append.mp hmem with
    | inl hmem => exact hfirst mapped hmem
    | inr hmem => exact hplain mapped hmem

end Reaches

variable {front back : List Attribute} {attr : Attribute} {before rest : List Char}

/-- The attributes in front of one are kept. -/
theorem reaches_attribute (hend : mapper.source.contentEnd = mapper.source.chars.length)
    (hnames : ∀ attr ∈ front, ∀ c, attr.name.toList.head? = some c → isBlank c = false)
    (hclear : ∀ attr ∈ front, '&' ∉ attr.value.toList)
    (hsource : mapper.source.chars = before ++ (front.flatMap attributeHtml ++ rest)) :
    Reaches (.all ((front ++ attr :: back).map (mapper.attributeSpans id tag)))
      ⟨before.length, 0⟩ (mapper.attributeSpans id tag attr)
      ⟨(before ++ front.flatMap attributeHtml).length, 0⟩ := by
  induction front generalizing before with
  | nil =>
      have hsame : before ++ [].flatMap attributeHtml = before := List.append_nil before
      rw [hsame]
      exact (Reaches.refl _ _).earlier _
  | cons other front ih =>
      rw [List.flatMap_cons, List.append_assoc] at hsource
      have hrest := @ih (before ++ attributeHtml other)
        (fun attr hmem => hnames attr (List.mem_cons_of_mem _ hmem))
        (fun attr hmem => hclear attr (List.mem_cons_of_mem _ hmem)) (by rw [hsource]; simp)
      rw [List.append_assoc] at hrest
      exact (keeps_attribute hend id (hnames other List.mem_cons_self)
        (fun _ => hclear other List.mem_cons_self) _).reaches hsource hrest

/-- The walk over a single element comes to each attribute that has no ampersand before it. -/
theorem reaches_lone (hend : mapper.source.contentEnd = mapper.source.chars.length)
    (hlone : mapper.fragment.Lone container id tag (front ++ attr :: back))
    (hclosing : mapper.closingTags tag = true) (hignored : mapper.ignored = [])
    (hnames : ∀ attr ∈ front, ∀ c, attr.name.toList.head? = some c → isBlank c = false)
    (hclear : ∀ attr ∈ front, '&' ∉ attr.value.toList)
    (hsource : mapper.source.chars = '<' :: tag.toList ++ (front.flatMap attributeHtml ++ rest)) :
    Reaches (mapper.content container) ⟨0, 0⟩ (mapper.attributeSpans id tag attr)
      ⟨('<' :: tag.toList ++ front.flatMap attributeHtml).length, 0⟩ := by
  have hattributes := @reaches_attribute mapper id tag front back attr _ rest hend hnames hclear
    hsource
  rw [content_of_lone hlone hclosing hignored]
  have hopening : Reaches (mapper.opening id tag (front ++ attr :: back)) ⟨0, 0⟩
      (mapper.attributeSpans id tag attr)
      ⟨('<' :: tag.toList ++ front.flatMap attributeHtml).length, 0⟩ :=
    @Keeps.reaches mapper _ _ _ _ [] _ _ (keeps_span mapper _ _ _ (length_marked '<' tag)) hsource
      (hattributes.earlier _)
  exact @Keeps.reaches mapper _ _ _ _ [] [] mapper.source.chars (keeps_emit mapper _ _ _) rfl
    ((hopening.earlier _).earlier _)

/-- The corrections of a value inside a tag whose content keeps references: nothing up to the first
    ampersand, which is then taken for five characters that were written for one. -/
theorem table_of_ampersand (hend : mapper.source.contentEnd = mapper.source.chars.length)
    {clear more rest : List Char} (hclear : '&' ∉ clear) (hkeeps : keepsReferences tag = true)
    (hsource : mapper.source.chars =
      before ++ (escapeAttribute clear ++ ((ampersand ++ escapeAttribute more) ++ rest))) :
    ∀ k < (escapeAttribute clear).length + 5,
      (mapper.source.table tag (escapeAttribute clear ++ (ampersand ++ escapeAttribute more))
        before.length).1[k]? = some (min 0 ((escapeAttribute clear).length - k : Int)) := by
  have hwhole : Source.Whole (escapeAttribute clear ++ (ampersand ++ escapeAttribute more))
      rest := by
    rw [← escapeAttribute_split rfl]
    exact fun suffix hsuffix hne => referenceLength?_of_escaped escaping_attribute hsuffix hne
  have hpair : pairing true (ampersand ++ escapeAttribute more)
      (mapper.source.slice (before ++ escapeAttribute clear).length referenceWindow) =
        .written 4 := by
    have hreference : ∀ rest, referenceLength? (ampersand ++ rest) = some 5 := fun rest =>
      @referenceLength?_of_whole rest ['a', 'm', 'p'] (List.cons_ne_nil _ _)
        (List.all_eq_true.mp rfl) (by decide)
    have hsource : mapper.source.chars = before ++ escapeAttribute clear ++
        (ampersand ++ (escapeAttribute more ++ rest)) := by rw [hsource]; simp
    have hslice := Source.slice_of_append hsource referenceWindow
    rw [hslice, pairing, referenceLength?_take, hreference, hreference]
    rfl
  have hlt : ((before ++ escapeAttribute clear).length : Int) < mapper.source.contentEnd := by
    rw [hend, hsource]
    simp [ampersand]
    omega
  have hfront := @Source.corrections_front _ _ _ _ true hend _ hsource hwhole
    fun _ suffix hsuffix hne => Source.not_escapedAmpersand_of_escaped escaping_attribute
      (fun _ => Source.escapeAttributeChar_of_ne) hclear hsuffix hne _
  have hwritten := @Source.corrections_written _ _ _ _ ['a', 'm', 'p', ';'] hlt hpair 0
  rw [List.length_append] at hwritten
  intro k hindex
  obtain ⟨after, htable⟩ : ∃ after, (mapper.source.table tag
      (escapeAttribute clear ++ (ampersand ++ escapeAttribute more)) before.length).1 =
        List.replicate (escapeAttribute clear).length 0 ++
          ((List.range 5).map (fun k : Nat => -(0 + (k : Int))) ++ after) := by
    simp only [Source.table, hkeeps, hfront]
    exact ⟨_, congrArg _ (congrArg Prod.fst hwritten)⟩
  rw [htable]
  by_cases hfirst : k < (escapeAttribute clear).length
  · rw [List.getElem?_append_left (by simpa using hfirst), List.getElem?_replicate_of_lt hfirst]
    exact congrArg some (by omega)
  · obtain ⟨j, rfl⟩ := Nat.exists_eq_add_of_le (Nat.le_of_not_lt hfirst)
    have hj : j < 5 := Nat.lt_of_add_lt_add_left hindex
    rw [List.getElem?_append_right (by simp), List.length_replicate, Nat.add_sub_cancel_left,
      List.getElem?_append_left (by simpa using hj), List.getElem?_map, List.getElem?_range hj]
    simp only [Option.map_some]
    exact congrArg some (by omega)

/-- The origins of an attribute whose value holds an ampersand, inside a tag whose content keeps
    references. -/
theorem origins_of_ampersand (id : NodeId)
    (hend : mapper.source.contentEnd = mapper.source.chars.length)
    (hsource : mapper.source.chars = before ++ (attributeHtml attr ++ rest))
    (hname : ∀ c, attr.name.toList.head? = some c → isBlank c = false)
    (hkeeps : keepsReferences tag = true) {clear more : List Char}
    (hvalue : attr.value.toList = clear ++ '&' :: more) (hclear : '&' ∉ clear) :
    ∃ named offsets, named.origin.Plain ∧
      (mapper.attributeSpans id tag attr ⟨before.length, 0⟩).2.origins =
        [named, mapper.origin (.attribute id attr.name) .attributeValue
          (before.length + (1 + attr.name.length))
          ((escapeAttribute attr.value.toList).length + 3) 0 (some offsets)] ∧
      ∀ k < (escapeAttribute clear).length + 7,
        offsets[k]? = some (min 0 ((escapeAttribute clear).length + 2 - k : Int)) := by
  have hsplit : mapper.source.chars =
      (before ++ ' ' :: attr.name.toList ++ ['=', '"']) ++ (escapeAttribute clear ++
        ((ampersand ++ escapeAttribute more) ++ '"' :: rest)) := by
    rw [hsource, attributeHtml, escapeAttribute_split hvalue]
    simp
  have hposition : before.length + (attr.name.length + 3) =
      (before ++ ' ' :: attr.name.toList ++ ['=', '"']).length := by
    simp only [List.length_append, List.length_cons, List.length_nil, String.length_toList]
    omega
  have htable := table_of_ampersand hend hclear hkeeps hsplit
  rw [← hposition, ← escapeAttribute_split hvalue] at htable
  have hspelling := spelling_as_written hsource hname tag
  dsimp only at hspelling
  let named := mapper.origin (.attribute id attr.name) .attributeName before.length
    (1 + attr.name.length) 0 (some (List.replicate (1 + attr.name.length) 0))
  refine ⟨named, (mapper.valueOffsets tag (escapeAttribute attr.value.toList) true 0 0
    (before.length + (attr.name.length + 3) : Nat)).1, ?_, ?_, ?_⟩
  · refine mapper.plain_origin _ _ _ _ fun table hsome o ho => ?_
    rw [← Option.some.inj hsome] at ho
    exact List.eq_of_mem_replicate ho
  · simp only [attributeSpans, assigned_of_extra_zero, hspelling]
    rfl
  · intro k hlt
    obtain ⟨hequals, hquote, -⟩ := valueOffsets_entry (htable 0 (by omega)) true 0 0
    cases k with
    | zero => exact hequals.trans (congrArg some (by omega))
    | succ k =>
        cases k with
        | zero => exact hquote.trans (congrArg some (by simp only [if_true]; omega))
        | succ k =>
            obtain ⟨-, -, hentry⟩ := valueOffsets_entry (htable k (by omega)) true 0 0
            exact hentry.trans (congrArg some (by simp only [if_true]; omega))

/-- The origins of a single element whose attributes hold an ampersand, inside a tag whose content
    keeps references: up to the first of them there are no corrections. -/
theorem origins_of_lone (hend : mapper.source.contentEnd = mapper.source.chars.length)
    (hlone : mapper.fragment.Lone container id tag (front ++ attr :: back))
    (hclosing : mapper.closingTags tag = true) (hignored : mapper.ignored = [])
    (hsource : mapper.source.chars = mapper.fragment.innerHtml container)
    (hnames : ∀ other ∈ front ++ attr :: back, ∀ c, other.name.toList.head? = some c →
      isBlank c = false)
    (hkeeps : keepsReferences tag = true) (hfront : ∀ other ∈ front, '&' ∉ other.value.toList)
    {clear more : List Char} (hvalue : attr.value.toList = clear ++ '&' :: more)
    (hclear : '&' ∉ clear) :
    ∃ passed named later offsets, (∀ mapped ∈ passed, mapped.origin.Plain) ∧ named.origin.Plain ∧
      (mapper.content container ⟨0, 0⟩).2.origins =
        passed ++ ([named, mapper.origin (.attribute id attr.name) .attributeValue
          (1 + tag.length + (front.flatMap attributeHtml).length + (1 + attr.name.length))
          ((escapeAttribute attr.value.toList).length + 3) 0 (some offsets)] ++ later) ∧
      ∀ k < (escapeAttribute clear).length + 7,
        offsets[k]? = some (min 0 ((escapeAttribute clear).length + 2 - k : Int)) := by
  obtain ⟨rest, hhtml⟩ := hlone.innerHtml_split
  rw [← hsource] at hhtml
  obtain ⟨named, offsets, hnamed, horigins, hoffsets⟩ := origins_of_ampersand id hend hhtml
    (hnames attr (by simp)) hkeeps hvalue hclear
  obtain ⟨passed, later, hreached, hplain⟩ := reaches_lone hend hlone hclosing hignored
    (fun other hmem => hnames other (List.mem_append_left _ hmem)) hfront
    (by rw [hhtml]; simp only [List.append_assoc]; rfl)
  have hbefore : ('<' :: tag.toList ++ front.flatMap attributeHtml).length =
      1 + tag.length + (front.flatMap attributeHtml).length := by
    simp only [List.length_append, List.length_cons, String.length_toList]
    omega
  rw [horigins, hbefore] at hreached
  exact ⟨passed, named, later, offsets, hplain, hnamed, hreached, hoffsets⟩

end Mapper

/-- Of origins in order, those that start before a certain one are those that come before it. -/
theorem plain_of_before {passed later : List MappedOrigin} {named valued mapped : MappedOrigin}
    (horder : ((passed ++ ([named, valued] ++ later)).map MappedOrigin.origin).Pairwise
      Origin.Before)
    (hpassed : ∀ mapped ∈ passed, mapped.origin.Plain) (hnamed : named.origin.Plain)
    (hmem : mapped ∈ passed ++ ([named, valued] ++ later))
    (hlt : mapped.origin.start.toNat < valued.origin.start.toNat) : mapped.origin.Plain := by
  obtain ⟨-, hpair, -⟩ := List.pairwise_append.mp (List.pairwise_map.mp horder)
  obtain ⟨-, -, hlater⟩ := List.pairwise_append.mp hpair
  rcases List.mem_append.mp hmem with hmem | hmem
  · exact hpassed mapped hmem
  · rcases List.mem_append.mp hmem with hmem | hmem
    · rcases List.mem_pair.mp hmem with rfl | rfl
      · exact hnamed
      · exact absurd hlt (Nat.lt_irrefl _)
    · have hafter := hlater valued (by simp) mapped hmem
      rw [Origin.Before] at hafter
      omega

section Lone

variable {fragment : Fragment} {container id : NodeId} {closingTags : ClosingTags}
  {tag : String} {attributes : List Attribute} {assigned : Operand RecordId}

/-- An element whose references are decoded, or that has none, is mapped without a diagnostic, and
    every character leads to itself. -/
theorem map_lone_kept (hbuilt : fragment.Built)
    (hlone : fragment.Lone container id tag attributes)
    (hsize : (fragment.innerHtml container).length < lengthLimit)
    (hremembers : closingTags.Remembers .byVoidTags)
    (hnames : ∀ attr ∈ attributes, ∀ c, attr.name.toList.head? = some c → isBlank c = false)
    (hassigned : assignedText assigned = String.ofList (fragment.innerHtml container))
    (hkept : keepsReferences tag = true → ∀ attr ∈ attributes, '&' ∉ attr.value.toList) :
    let report := map closingTags fragment container assigned {}
    report.diagnostics = [] ∧ ∀ index < (fragment.innerHtml container).length,
      ((Snapshot.capture fragment container report.origins).originAt index).map
        ResolvedOrigin.charIndex = some index := by
  let mapper := Mapper.ofAssignment .checked closingTags fragment container assigned {}
  have hend : mapper.source.contentEnd = mapper.source.chars.length := by
    rw [Mapper.contentEnd_ofAssignment closingTags fragment container hassigned hsize]
  have hkeeps : mapper.Keeps (mapper.content container) (fragment.innerHtml container) [] :=
    Mapper.keeps_lone hend hlone (hlone.hasClosingTag hremembers) rfl hnames hkept
  obtain ⟨hdiagnostics, hplain⟩ := plain_of_keeps hassigned hsize hkeeps
  refine ⟨hdiagnostics, fun index hlt => ?_⟩
  have hindex : ∀ mapped ∈ (map closingTags fragment container assigned {}).origins,
      mapped.origin.covers index = true → mapped.origin.assignedIndex index = some index :=
    fun mapped hmem hcovers =>
      (hplain mapped hmem).assignedIndex (Mapping.lt_of_covers hcovers).1 (Nat.lt_trans hlt hsize)
  obtain ⟨resolved, hlookup, hplace, -⟩ :=
    originAt_of_covered hbuilt hlone.proper hsize hremembers hlt (hlone.gapAt hbuilt index) hindex
  rw [hlookup]
  exact congrArg some hplace

theorem map_lone_strays (hbuilt : fragment.Built) {front back : List Attribute} {attr : Attribute}
    (hlone : fragment.Lone container id tag (front ++ attr :: back))
    (hsize : (fragment.innerHtml container).length < lengthLimit)
    (hremembers : closingTags.Remembers .byVoidTags)
    (hnames : ∀ other ∈ front ++ attr :: back, ∀ c, other.name.toList.head? = some c →
      isBlank c = false)
    (hassigned : assignedText assigned = String.ofList (fragment.innerHtml container))
    (hkeeps : keepsReferences tag = true) (hfront : ∀ other ∈ front, '&' ∉ other.value.toList)
    {clear more : List Char} (hvalue : attr.value.toList = clear ++ '&' :: more)
    (hclear : '&' ∉ clear) :
    let place := 1 + tag.length + (front.flatMap attributeHtml).length + (attr.name.length + 3) +
      (escapeAttribute clear).length
    ((fragment.innerHtml container).drop place).take 5 = ampersand ∧ ∀ index < place + 5,
      ((Snapshot.capture fragment container
        (map closingTags fragment container assigned {}).origins).originAt index).map
          ResolvedOrigin.charIndex = some (min index place) := by
  intro place
  let mapper := Mapper.ofAssignment .checked closingTags fragment container assigned {}
  let start := 1 + tag.length + (front.flatMap attributeHtml).length + (1 + attr.name.length)
  have hsource : mapper.source = _ :=
    Mapper.contentEnd_ofAssignment closingTags fragment container hassigned hsize
  obtain ⟨passed, named, later, offsets, hplain, hnamed, horigins, hoffsets⟩ :=
    Mapper.origins_of_lone (by rw [hsource]) hlone (hlone.hasClosingTag hremembers) rfl
      (congrArg Source.chars hsource) hnames hkeeps hfront hvalue hclear
  let valued := mapper.origin (.attribute id attr.name) .attributeValue start
    ((escapeAttribute attr.value.toList).length + 3) 0 (some offsets)
  have hmap : (map closingTags fragment container assigned {}).origins =
      passed ++ ([named, valued] ++ later) :=
    (Mapper.origins_map closingTags fragment container assigned {}).trans horigins
  have hplace : place = start + ((escapeAttribute clear).length + 2) := by omega
  have hescaped : (escapeAttribute attr.value.toList).length =
      (escapeAttribute clear).length + (5 + (escapeAttribute more).length) := by
    simp [escapeAttribute_split hvalue, ampersand]
    omega
  have hstop : start + ((escapeAttribute attr.value.toList).length + 3) ≤
      (fragment.innerHtml container).length := by
    obtain ⟨rest, hhtml⟩ := hlone.innerHtml_split
    rw [hhtml]
    simp only [attributeHtml, start, List.length_append, List.length_cons, List.length_nil,
      String.length_toList]
    omega
  have hwords : (fragment.innerHtml container).length < UInt64.size :=
    Nat.lt_trans hsize (by decide)
  have hvalued : valued.origin.start.toNat = start := UInt64.toNat_ofNat_of_lt' (by omega)
  refine ⟨hlone.take_ampersand hvalue, fun index hindex => ?_⟩
  by_cases hlt : index < start
  · have hplaces : ∀ mapped ∈ (map closingTags fragment container assigned {}).origins,
        mapped.origin.covers index = true → mapped.origin.assignedIndex index = some index := by
      intro mapped hmem hcovers
      have hle := (Mapping.lt_of_covers hcovers).1
      have horder := before_map .checked hbuilt hlone.proper hwords hremembers assigned {}
      rw [hmap] at hmem horder
      exact (plain_of_before horder hplain hnamed hmem (by omega)).assignedIndex hle (by omega)
    obtain ⟨resolved, hlookup, hcharIndex, -⟩ :=
      originAt_of_covered hbuilt hlone.proper hsize hremembers
      (by omega) (hlone.gapAt hbuilt index) hplaces
    rw [hlookup, Option.map_some, hcharIndex]
    exact congrArg some (by omega)
  · have hmem : valued ∈ (map closingTags fragment container assigned {}).origins := by
      simp [hmap]
    have hleads : mapper.LeadsTo (fragment.innerHtml container).length valued index
        (min index place : Nat) := by
      refine ⟨_, _, _, _, _, _, rfl, by omega, by omega, hstop, ?_⟩
      rw [assignedPosition_some (hoffsets (index - start) (by omega))]
      omega
    exact originAt_of_leadsTo hbuilt hlone.proper hsize hremembers hmem hleads (by omega)

/-- The written form of a single element is assigned. If references in the element are not kept, or
    its attributes hold no ampersand, there is no diagnostic and every character leads to itself.
    Else that is true up to the first ampersand of a value only: all five characters that are
    written for it lead to its own place. -/
theorem map_lone_element (hbuilt : fragment.Built)
    (hlone : fragment.Lone container id tag attributes)
    (hsize : (fragment.innerHtml container).length < lengthLimit)
    (hremembers : closingTags.Remembers .byVoidTags)
    (hnames : ∀ attr ∈ attributes, ∀ c, attr.name.toList.head? = some c → isBlank c = false)
    (hassigned : assignedText assigned = String.ofList (fragment.innerHtml container)) :
    let html := fragment.innerHtml container
    let report := map closingTags fragment container assigned {}
    let leads index := ((Snapshot.capture fragment container report.origins).originAt index).map
      ResolvedOrigin.charIndex
    ((keepsReferences tag = true → ∀ attr ∈ attributes, '&' ∉ attr.value.toList) →
      report.diagnostics = [] ∧ ∀ index < html.length, leads index = some index) ∧
    ∀ front attr back clear more, keepsReferences tag = true → attributes = front ++ attr :: back →
      (∀ other ∈ front, '&' ∉ other.value.toList) → attr.value.toList = clear ++ '&' :: more →
      '&' ∉ clear →
        let place := 1 + tag.length + (front.flatMap attributeHtml).length +
          (attr.name.length + 3) + (escapeAttribute clear).length
        (html.drop place).take 5 = ampersand ∧
          ∀ index < place + 5, leads index = some (min index place) := by
  intro html report leads
  refine ⟨map_lone_kept hbuilt hlone hsize hremembers hnames hassigned, ?_⟩
  intro front attr back clear more hkeeps hattributes hfront hvalue hclear
  subst hattributes
  exact map_lone_strays hbuilt hlone hsize hremembers hnames hassigned hkeeps hfront hvalue hclear

end Lone

/-- An element that is appended to a new container is there by itself. -/
theorem Fragment.lone_appendElement (container : String) {tag : String} (hvoid : isVoid tag = false)
    (attributes : List Attribute) :
    ((Fragment.new container).appendElement 0 tag attributes).Lone 0 1 (lowerAscii tag)
      (attributes.map fun attr => { attr with name := lowerAscii attr.name }) where
  children := rfl
  kind := rfl
  childless := rfl
  closed := (isVoid_lowerAscii tag).trans hvoid

/-- An element with a title. -/
def titled (tag value : String) : Fragment :=
  (Fragment.new "div").appendElement 0 tag [⟨"title", value⟩]

theorem titled_built (tag value : String) : (titled tag value).Built := .element (.new _) _ _ _

theorem titled_names (value : String) : ∀ attr ∈ [(⟨"title", value⟩ : Attribute)], ∀ c,
    attr.name.toList.head? = some c → isBlank c = false := by
  intro attr hmem c hhead
  cases List.mem_singleton.mp hmem
  have hfirst : "title".toList.head? = some 't' := by decide
  cases hfirst.symm.trans hhead
  decide

theorem map_lone_element_titled :
    (∀ index < 27, ((Snapshot.capture (titled "a-b" "a&b") 0 (map ClosingTags.byVoidTags.folded
      (titled "a-b" "a&b") 0 { value := .str "<a-b title=\"a&amp;b\"></a-b>" }
        {}).origins).originAt index).map ResolvedOrigin.charIndex = some index) ∧
    ∀ index < 23, ((Snapshot.capture (titled "NoScript" "a&b") 0 (map ClosingTags.byVoidTags.folded
      (titled "NoScript" "a&b") 0 { value := .str "<noscript title=\"a&amp;b\"></noscript>" }
        {}).origins).originAt index).map ResolvedOrigin.charIndex = some (min index 18) := by
  have hplain : (titled "a-b" "a&b").Lone 0 1 "a-b" [⟨"title", "a&b"⟩] :=
    Fragment.lone_appendElement "div" (by decide) _
  have hkeeping : (titled "NoScript" "a&b").Lone 0 1 "noscript" [⟨"title", "a&b"⟩] :=
    Fragment.lone_appendElement "div" (by decide) _
  obtain ⟨hkept, -⟩ := map_lone_element (titled_built _ _) hplain (by decide +kernel)
    (ClosingTags.folded_remembers _) (titled_names _)
    (show assignedText { value := .str "<a-b title=\"a&amp;b\"></a-b>" } = _ by decide +kernel)
  obtain ⟨-, hstrays⟩ := map_lone_element (titled_built _ _) hkeeping (by decide +kernel)
    (ClosingTags.folded_remembers _) (titled_names _)
    (show assignedText { value := .str "<noscript title=\"a&amp;b\"></noscript>" } = _ by
      decide +kernel)
  have hlength : ((titled "a-b" "a&b").innerHtml 0).length = 27 := by decide +kernel
  refine ⟨fun index hlt => (hkept (by decide)).2 index (hlength ▸ hlt), fun index hlt => ?_⟩
  exact (hstrays [] _ [] ['a'] ['b'] (by decide) rfl (by simp) (by decide) (by decide)).2 index hlt

/-- The only attribute of the element is assigned as it is written, but a mismatch is reported, and
    the second of the five characters that stand for the ampersand leads to the first. -/
theorem map_lone_element_strays :
    let fragment := titled "noscript" "&"
    let html := "<noscript title=\"&amp;\"></noscript>"
    let report := map ClosingTags.byVoidTags.folded fragment 0 { value := .str html } {}
    isVoid "noscript" = false ∧ fragment.innerHtml 0 = html.toList ∧
    report.diagnostics = [⟨35, 31, .endsElsewhere 31 35⟩] ∧
    ((Snapshot.capture fragment 0 report.origins).originAt 18).map ResolvedOrigin.charIndex =
      some 17 := by
  intro fragment html report
  have hlone : fragment.Lone 0 1 "noscript" ([] ++ ⟨"title", "&"⟩ :: []) :=
    Fragment.lone_appendElement "div" (by decide) _
  have hassigned : assignedText { value := .str html } = String.ofList (fragment.innerHtml 0) := by
    decide +kernel
  have hvalue : "&".toList = [] ++ '&' :: [] := by decide
  obtain ⟨-, hstrays⟩ := map_lone_strays (titled_built _ _) hlone (by decide +kernel)
    (ClosingTags.folded_remembers _) (titled_names _) hassigned (by decide)
    (fun _ hnone => nomatch hnone) hvalue (fun hnone => nomatch hnone)
  exact ⟨by decide, by decide +kernel, by decide +kernel, hstrays 18 (by decide)⟩

end Provenance.Markup
