import Provenance.Proofs.Markup.Agreement
import Provenance.Proofs.Markup.Onward

/-! # Walks whose sums leave their words

A walk none of whose sums leaves its word is the same in every build, so only a walk with such a sum
depends on how the program was built. All sums of a walk lie between bounds that come from where it
begins, from the length of the assigned string and from how much is written. Strings are not so long
that these leave the words, unless the walk sets out from far away; from the least count of added
characters it always has a sum that does.
-/

namespace Provenance.Markup

open Provenance.Text (leadingBlanks)

variable {build other : Build}

namespace Report

variable {first second report : Report}

theorem overflows_eq_false_iff :
    report.overflows = false ↔ ∀ sum ∈ report.sums, Origin.isSigned sum = true := by
  rw [overflows, Bool.not_eq_false', List.all_eq_true]

theorem overflows_append : (first ++ second).overflows = false ↔
    first.overflows = false ∧ second.overflows = false := by
  have hsums : (first ++ second).sums = first.sums ++ second.sums := rfl
  rw [overflows_eq_false_iff, overflows_eq_false_iff, overflows_eq_false_iff, hsums,
    List.forall_mem_append]

end Report

/-! ## The same in every build -/

/-- The same assigned side in another build. -/
def Source.inBuild (source : Source build) (other : Build) : Source other where
  chars := source.chars
  contentEnd := source.contentEnd

namespace Source

variable {source : Source build} {keeps : Bool} {text : List Char} {inside : Nat}
  {position added : Int}

theorem slice_inBuild (hfits : Origin.isSigned position = true) (count : Nat) :
    (source.inBuild other).slice position count = source.slice position count := by
  simp only [slice, Build.position_of_isSigned hfits]
  rfl

theorem pair_inBuild (hfits : Origin.isSigned position = true) :
    (source.inBuild other).pair keeps text position = source.pair keeps text position := by
  simp only [pair, slice_inBuild hfits]

theorem corrections_inBuild
    (hfits : ∀ sum ∈ source.sums keeps text inside position added, Origin.isSigned sum = true) :
    (source.inBuild other).corrections keeps text inside position added =
        source.corrections keeps text inside position added ∧
      (source.inBuild other).sums keeps text inside position added =
        source.sums keeps text inside position added := by
  induction text generalizing inside position added with
  | nil => exact ⟨rfl, rfl⟩
  | cons c rest ih =>
      cases inside with
      | succ inside =>
          obtain ⟨hcorrections, hsums⟩ := ih hfits
          rw [corrections_inside, corrections_inside, hcorrections]
          exact ⟨rfl, hsums⟩
      | zero =>
          simp only [Source.sums, List.forall_mem_cons] at hfits
          obtain ⟨-, hposition, hlater⟩ := hfits
          have hpair := @pair_inBuild build other source keeps (c :: rest) position hposition
          have hend : (source.inBuild other).contentEnd = source.contentEnd := rfl
          simp only [corrections, Source.sums, hend, hpair,
            Build.position_of_isSigned hposition] at hlater ⊢
          by_cases hstop : source.contentEnd ≤ position
          · simp only [if_pos hstop, and_self]
          · rw [if_neg hstop] at hlater
            obtain ⟨hcorrections, hsums⟩ := ih hlater
            simp only [if_neg hstop, hcorrections, hsums, and_self]

theorem table_inBuild {tag : String}
    (hfits : ∀ sum ∈ source.tableSums tag text position, Origin.isSigned sum = true) :
    (source.inBuild other).table tag text position = source.table tag text position ∧
      (source.inBuild other).tableSums tag text position = source.tableSums tag text position := by
  obtain ⟨hcorrections, hsums⟩ := corrections_inBuild (List.forall_mem_cons.mp hfits).2
  exact ⟨hcorrections, congrArg (position :: ·) hsums⟩

end Source

namespace Walk

/-- Whether another stretch does the same as this one, as long as the sums of this one are signed
    words. -/
def Agrees (walk walk' : Walk) : Prop :=
  ∀ cursor, (walk cursor).2.overflows = false → walk' cursor = walk cursor

variable {first second first' second' : Walk}

theorem agrees_refl (walk : Walk) : walk.Agrees walk := fun _ _ => rfl

theorem Agrees.andThen (hfirst : first.Agrees first') (hsecond : second.Agrees second') :
    (first.andThen second).Agrees (first'.andThen second') := by
  intro cursor hfits
  obtain ⟨hbefore, hafter⟩ := Report.overflows_append.mp hfits
  simp only [Walk.andThen, hfirst cursor hbefore, hsecond _ hafter]

end Walk

namespace Mapper

open Walk (agrees_refl)

/-- The same mapping in another build. -/
def inBuild (mapper : Mapper build) (other : Build) : Mapper other :=
  { mapper with source := mapper.source.inBuild other }

variable {mapper : Mapper build}

theorem agrees_mismatch (cause : Mismatch) :
    (Walk.mismatch build cause).Agrees (.mismatch other cause) := by
  intro cursor hfits
  have hassigned := Report.overflows_eq_false_iff.mp hfits _ List.mem_cons_self
  simp only [Walk.mismatch, Build.position_of_isSigned hassigned]

theorem agrees_text (id : NodeId) (parentTag content : String) :
    (mapper.text id parentTag content).Agrees
      ((mapper.inBuild other).text id parentTag content) := by
  intro cursor hfits
  obtain ⟨hsums, -⟩ := List.forall_mem_append.mp (Report.overflows_eq_false_iff.mp hfits)
  obtain ⟨htable, htableSums⟩ := @Source.table_inBuild build other _ _ _ _ hsums
  have hsource : (mapper.inBuild other).source = mapper.source.inBuild other := rfl
  simp only [text, hsource, htable, htableSums]
  rfl

theorem mem_spellingSums (mapper : Mapper build) (tag : String) (attr : Attribute) (start : Int) :
    start ∈ mapper.spellingSums tag attr start := by
  simp only [spellingSums]
  split
  · exact List.mem_append_left _ (List.mem_append_left _ List.mem_cons_self)
  · exact List.mem_cons_self

/-- An attribute is read alike if what is summed up for it are signed words. -/
theorem spelling_inBuild {tag : String} {attr : Attribute} {start : Int}
    (hfits : ∀ sum ∈ mapper.spellingSums tag attr start, Origin.isSigned sum = true) :
    (mapper.inBuild other).spelling tag attr start = mapper.spelling tag attr start ∧
      (mapper.inBuild other).spellingSums tag attr start =
        mapper.spellingSums tag attr start := by
  have hsource : (mapper.inBuild other).source = mapper.source.inBuild other := rfl
  obtain ⟨blanks, hblanks⟩ : ∃ blanks,
    leadingBlanks (mapper.source.slice start 100) = blanks := ⟨_, rfl⟩
  obtain ⟨afterName, hname⟩ : ∃ afterName : Int,
    start + blanks + attr.name.length = afterName := ⟨_, rfl⟩
  obtain ⟨before, hbefore⟩ : ∃ before,
    leadingBlanks (mapper.source.slice afterName 50) = before := ⟨_, rfl⟩
  simp only [spellingSums, hblanks, hname, hbefore] at hfits
  have hstart : Origin.isSigned start = true ∧ Origin.isSigned afterName = true := by
    split at hfits
    · exact ⟨hfits _ (by simp), hfits _ (by simp)⟩
    · exact ⟨hfits _ (by simp), hfits _ (by simp)⟩
  simp only [spelling, spellingSums, hsource, Source.slice_inBuild hstart.1, hblanks, hname,
    Source.slice_inBuild hstart.2, hbefore]
  split at hfits
  · rename_i hequals
    rw [if_pos hequals, if_pos hequals, if_pos hequals, if_pos hequals]
    have hafter : Origin.isSigned (afterName + before + 1) = true := hfits _ (by simp)
    have hvalue := (List.forall_mem_append.mp hfits).2
    obtain ⟨htable, htableSums⟩ := @Source.table_inBuild build other _ _ _ _ hvalue
    simp only [Source.slice_inBuild hafter, htableSums]
    refine ⟨?_, trivial⟩
    simp only [valueOffsets, hsource, htable]
  · rename_i hbare
    rw [if_neg hbare, if_neg hbare, if_neg hbare, if_neg hbare]
    exact ⟨rfl, rfl⟩

theorem agrees_attribute (id : NodeId) (tag : String) (attr : Attribute) :
    (mapper.attributeSpans id tag attr).Agrees
      ((mapper.inBuild other).attributeSpans id tag attr) := by
  intro cursor hfits
  obtain ⟨hsums, -⟩ := List.forall_mem_append.mp (Report.overflows_eq_false_iff.mp hfits)
  obtain ⟨hspelling, hspellingSums⟩ := @spelling_inBuild build other mapper _ _ _ hsums
  have hassigned := hsums _ (mapper.mem_spellingSums tag attr cursor.assigned)
  simp only [attributeSpans, hspelling, hspellingSums, Build.position_of_isSigned hassigned]
  rfl

theorem agrees_tagBlanks :
    (mapper.tagBlanks).Agrees (mapper.inBuild other).tagBlanks := by
  intro cursor hfits
  have hassigned := Report.overflows_eq_false_iff.mp hfits _ List.mem_cons_self
  have hsource : (mapper.inBuild other).source = mapper.source.inBuild other := rfl
  simp only [tagBlanks, hsource, Source.slice_inBuild hassigned]

theorem agrees_needlessEnd (tag : String) :
    (mapper.needlessEnd tag).Agrees ((mapper.inBuild other).needlessEnd tag) := by
  intro cursor hfits
  have hassigned := Report.overflows_eq_false_iff.mp hfits _ List.mem_cons_self
  have hsource : (mapper.inBuild other).source = mapper.source.inBuild other := rfl
  simp only [needlessEnd, hsource, Source.slice_inBuild hassigned]

theorem agrees_selfClosed (length : Nat) :
    (mapper.selfClosed length).Agrees ((mapper.inBuild other).selfClosed length) := by
  intro cursor hfits
  have hback := Report.overflows_eq_false_iff.mp hfits (cursor.assigned - 1 - length)
    (by simp [selfClosed, Walk.add])
  have hsource : (mapper.inBuild other).source = mapper.source.inBuild other := rfl
  simp only [selfClosed, hsource, Source.slice_inBuild hback]

theorem agrees_opening (id : NodeId) (tag : String) (attributes : List Attribute) :
    (mapper.opening id tag attributes).Agrees
      ((mapper.inBuild other).opening id tag attributes) := by
  have hattributes : (Walk.all (attributes.map (mapper.attributeSpans id tag))).Agrees
      (.all (attributes.map ((mapper.inBuild other).attributeSpans id tag))) :=
    Walk.all_related (agrees_refl _) .andThen fun attr _ => mapper.agrees_attribute id tag attr
  have hneedless : (if mapper.closingTags tag then Walk.stay else mapper.needlessEnd tag).Agrees
      (if mapper.closingTags tag then .stay else (mapper.inBuild other).needlessEnd tag) := by
    split
    · exact agrees_refl _
    · exact agrees_needlessEnd tag
  exact (agrees_refl _).andThen (hattributes.andThen (agrees_tagBlanks.andThen
    (hneedless.andThen (agrees_refl _))))

theorem agrees_closing (id : NodeId) (tag : String) :
    (mapper.closing id tag).Agrees ((mapper.inBuild other).closing id tag) :=
  (agrees_refl _).andThen (agrees_selfClosed _)

/-- A walk does the same in every build, unless one of its sums leaves its word. -/
theorem parallel_agrees (mapper : Mapper build) (other : Build) :
    Parallel mapper (mapper.inBuild other) Walk.Agrees where
  fragment := rfl
  closingTags := rfl
  ignored := rfl
  stay := agrees_refl _
  andThen := .andThen
  skip _ := agrees_refl _
  advance _ := agrees_refl _
  childless _ := agrees_mismatch _
  mark _ := agrees_refl _
  text := agrees_text
  comment _ _ := agrees_refl _
  opening _ _ := agrees_opening _ _ _
  closed _ _ hinner := (agrees_opening _ _ _).andThen
    (hinner.andThen ((agrees_closing _ _).andThen (agrees_refl _)))

theorem ending_inBuild {cursor : Cursor} (hfits : Origin.isSigned cursor.assigned = true)
    (contentEnd : UInt64) :
    (mapper.inBuild other).ending contentEnd cursor = mapper.ending contentEnd cursor := by
  simp only [ending, Build.position_of_isSigned hfits]
  rfl

end Mapper

/-- A mapping comes to the same in every build, unless one of its sums leaves its word. -/
theorem mapIn_eq {closingTags : ClosingTags} {fragment : Fragment} {container : NodeId}
    {assigned : Operand RecordId} {options : MapOptions}
    (hfits : (mapIn build closingTags fragment container assigned options).overflows = false)
    (other : Build) : mapIn other closingTags fragment container assigned options =
      mapIn build closingTags fragment container assigned options := by
  let mapper := Mapper.ofAssignment build closingTags fragment container assigned options
  let start : Cursor := ⟨0, options.initialExtra.toInt⟩
  let stop := options.stop (assignedText assigned)
  obtain ⟨hwalk, hending⟩ := Report.overflows_append.mp hfits
  have hcontent : (mapper.inBuild other).content container start =
      mapper.content container start :=
    (mapper.parallel_agrees other).content container start hwalk
  have hassigned : Origin.isSigned (mapper.content container start).1.assigned = true :=
    Report.overflows_eq_false_iff.mp hending _ List.mem_cons_self
  show ((mapper.inBuild other).content container start).2 ++
    (mapper.inBuild other).ending stop ((mapper.inBuild other).content container start).1 = _
  rw [hcontent, Mapper.ending_inBuild hassigned]
  rfl

/-- Whether sums leave their words does not depend on the build. -/
theorem overflows_mapIn (build other : Build) (closingTags : ClosingTags) (fragment : Fragment)
    (container : NodeId) (assigned : Operand RecordId) (options : MapOptions) :
    (mapIn build closingTags fragment container assigned options).overflows =
      (mapIn other closingTags fragment container assigned options).overflows := by
  cases hfits : (mapIn build closingTags fragment container assigned options).overflows with
  | false => rw [mapIn_eq hfits other, hfits]
  | true =>
      cases hother : (mapIn other closingTags fragment container assigned options).overflows with
      | true => rfl
      | false =>
          rw [mapIn_eq hother build, hother] at hfits
          exact absurd hfits Bool.false_ne_true

/-! ## Bounds of the sums -/

namespace Mapper

variable {mapper : Mapper .checked} {a b c : Cursor} {sum : Int} {first second walk : Walk}

/-- Whether a sum lies between what two cursors allow. Positions go back by one at most and not
    behind the end of the assigned string by more than what is written from one cursor to the other;
    characters are added for written ones only, and dropped where there are assigned ones. -/
structure Between (mapper : Mapper .checked) (a b : Cursor) (sum : Int) : Prop where
  low : min (a.assigned - 1)
    (a.written - (max a.assigned mapper.source.chars.length + b.written)) ≤ sum
  high : sum ≤ b.written + max (max a.assigned mapper.source.chars.length - a.written)
    (-a.assigned)

theorem Between.mono {a' b' : Cursor} (h : mapper.Between a b sum) (honward : mapper.Onward a' a)
    (hmore : b.written ≤ b'.written) : mapper.Between a' b' sum := by
  obtain ⟨hlow, hhigh⟩ := h
  obtain ⟨hwritten, hassigned, hbounded⟩ := honward
  constructor <;> omega

/-- Both numbers of a cursor in between. -/
theorem between_of_cursor (hac : a.Follows c) (hcb : c.written ≤ b.written)
    (hend : c.assigned + a.written ≤ max a.assigned mapper.source.chars.length + b.written) :
    mapper.Between a b c.assigned ∧ mapper.Between a b c.extra := by
  obtain ⟨hwritten, hassigned⟩ := hac
  have hextra : c.extra = c.written - c.assigned := (Int.sub_sub_self _ _).symm
  refine ⟨⟨by omega, by omega⟩, ⟨?_, ?_⟩⟩ <;> rw [hextra] <;> omega

theorem Onward.between (h : mapper.Onward a b) :
    mapper.Between a b b.assigned ∧ mapper.Between a b b.extra :=
  between_of_cursor h.follows (Nat.le_refl _) h.bounded

theorem Onward.between_assigned (h : mapper.Onward a b) : mapper.Between a b a.assigned :=
  (between_of_cursor (.refl a) h.written (by have hwritten := h.written; omega)).1

/-- Whether a stretch moves forward and its sums lie between its ends. -/
structure Moderate (mapper : Mapper .checked) (walk : Walk) : Prop where
  advances : mapper.Advances walk
  between : ∀ cursor, ∀ sum ∈ (walk cursor).2.sums,
    mapper.Between cursor (walk cursor).1 sum

theorem Moderate.andThen (hfirst : mapper.Moderate first) (hsecond : mapper.Moderate second) :
    mapper.Moderate (first.andThen second) := by
  refine ⟨hfirst.advances.andThen hsecond.advances, fun cursor sum hmem => ?_⟩
  rcases List.mem_append.mp hmem with hmem | hmem
  · exact (hfirst.between cursor sum hmem).mono (.refl mapper cursor) (hsecond.advances _).written
  · exact (hsecond.between _ sum hmem).mono (hfirst.advances cursor) (Nat.le_refl _)

theorem moderate_of_silent (hadvances : mapper.Advances walk)
    (hsilent : ∀ cursor, (walk cursor).2.sums = []) : mapper.Moderate walk :=
  ⟨hadvances, fun cursor sum hmem => by rw [hsilent] at hmem; cases hmem⟩

theorem moderate_stay (mapper : Mapper .checked) : mapper.Moderate .stay :=
  moderate_of_silent mapper.advances_stay fun _ => rfl

theorem moderate_skip (mapper : Mapper .checked) (count : Nat) :
    mapper.Moderate (.skip count) := by
  refine ⟨mapper.advances_skip count, fun cursor sum hmem => ?_⟩
  rw [List.mem_singleton.mp hmem]
  exact (mapper.advances_skip count cursor).between.2

theorem moderate_mismatch (mapper : Mapper .checked) (cause : Mismatch) :
    mapper.Moderate (.mismatch .checked cause) := by
  refine ⟨mapper.advances_mismatch cause, fun cursor sum hmem => ?_⟩
  rw [List.mem_singleton.mp hmem]
  exact (mapper.advances_mismatch cause cursor).between_assigned

theorem moderate_span (mapper : Mapper .checked) (target : Target) (action : Action)
    (length : Nat) : mapper.Moderate (mapper.span target action length) :=
  moderate_of_silent (mapper.advances_span _ _ _) fun _ => rfl

theorem moderate_text (mapper : Mapper .checked) (id : NodeId) (parentTag content : String) :
    mapper.Moderate (mapper.text id parentTag content) := by
  have hadvances := mapper.advances_text id parentTag content
  refine ⟨hadvances, fun cursor sum hmem => ?_⟩
  have hwritten : (mapper.text id parentTag content cursor).1.written =
      cursor.written + (escapeText parentTag content.toList).length := rfl
  rcases List.mem_append.mp hmem with hmem | hmem
  · obtain ⟨hlow, hhigh⟩ := mapper.source.tableSums_bounds _ _ _ sum hmem
    constructor <;> omega
  · rw [List.mem_singleton.mp hmem]
    exact (hadvances cursor).between.2

theorem moderate_attribute (mapper : Mapper .checked) (id : NodeId) (tag : String)
    (attr : Attribute) : mapper.Moderate (mapper.attributeSpans id tag attr) := by
  have hadvances := mapper.advances_attribute id tag attr
  refine ⟨hadvances, fun cursor sum hmem => ?_⟩
  have hwritten : (mapper.attributeSpans id tag attr cursor).1.written = cursor.written +
      (1 + attr.name.length) + ((escapeAttribute attr.value.toList).length + 3) := rfl
  rcases List.mem_append.mp hmem with hmem | hmem
  · obtain ⟨hlow, hhigh⟩ := mapper.spellingSums_bounds tag attr cursor.assigned sum hmem
    constructor <;> omega
  · rw [List.mem_singleton.mp hmem]
    exact (hadvances cursor).between.2

theorem moderate_tagBlanks (mapper : Mapper .checked) : mapper.Moderate mapper.tagBlanks := by
  refine ⟨mapper.advances_tagBlanks, fun cursor sum hmem => ?_⟩
  have hadvances := mapper.advances_tagBlanks cursor
  rcases List.mem_cons.mp hmem with rfl | hmem
  · exact hadvances.between_assigned
  · rw [List.mem_singleton.mp hmem]
    exact hadvances.between.2

/-- What is dropped at the end of a tag is bounded by the whole tag. -/
theorem moderate_opening (mapper : Mapper .checked) (id : NodeId) (tag : String)
    (attributes : List Attribute) : mapper.Moderate (mapper.opening id tag attributes) := by
  have hadvances := mapper.advances_opening id tag attributes
  refine ⟨hadvances, fun cursor sum hmem => ?_⟩
  let inside : Walk := (mapper.span (.node id) .openingTagStart (1 + tag.length)).andThen
    ((Walk.all (attributes.map (mapper.attributeSpans id tag))).andThen mapper.tagBlanks)
  have hinside : mapper.Moderate inside := by
    refine (mapper.moderate_span _ _ _).andThen (.andThen ?_ mapper.moderate_tagBlanks)
    exact Walk.all_of mapper.moderate_stay Moderate.andThen fun attr _ =>
      mapper.moderate_attribute id tag attr
  let blank := (inside cursor).1
  let needless : Walk := if mapper.closingTags tag then .stay else mapper.needlessEnd tag
  let last := (needless blank).1
  have hneedless : last.written = blank.written ∧ blank.assigned ≤ last.assigned ∧
      ∀ sum ∈ (needless blank).2.sums, sum = blank.assigned ∨ sum = last.extra := by
    simp only [last, needless]
    split
    · exact ⟨rfl, Int.le_refl _, fun sum hmem => nomatch hmem⟩
    · obtain ⟨hwritten, hassigned, -⟩ := mapper.needlessEnd_bounds tag blank
      refine ⟨hwritten, hassigned, fun sum hmem => ?_⟩
      exact (List.mem_cons.mp hmem).imp_right List.mem_singleton.mp
  obtain ⟨hwritten, hassigned, hsums⟩ := hneedless
  have hsplit : (mapper.opening id tag attributes cursor).2.sums =
      (inside cursor).2.sums ++ (needless blank).2.sums := by
    have hassoc (p q r : List Int) :
        [] ++ (p ++ (q ++ (r ++ ([] ++ [])))) = ([] ++ (p ++ q)) ++ r := by simp
    exact hassoc _ _ _
  have hstop : (mapper.opening id tag attributes cursor).1 = ⟨last.written + 1, last.extra⟩ := rfl
  obtain ⟨-, -, hbounded⟩ := hadvances cursor
  rw [hsplit] at hmem
  rw [hstop] at hbounded ⊢
  have honward := hinside.advances cursor
  rcases List.mem_append.mp hmem with hmem | hmem
  · refine (hinside.between cursor sum hmem).mono (.refl mapper cursor) ?_
    exact Nat.le_trans (Nat.le_of_eq hwritten.symm) (Nat.le_succ _)
  · have hended : (⟨last.written + 1, last.extra⟩ : Cursor).assigned = last.assigned + 1 := by
      simp only [Cursor.assigned]
      omega
    have hlast : mapper.Between cursor ⟨last.written + 1, last.extra⟩ last.extra :=
      (between_of_cursor (honward.follows.trans ⟨Nat.le_of_eq hwritten.symm, hassigned⟩)
        (Nat.le_succ _) (by omega)).2
    rcases hsums sum hmem with rfl | rfl
    · refine (honward.between.1).mono (.refl mapper cursor) ?_
      exact Nat.le_trans (Nat.le_of_eq hwritten.symm) (Nat.le_succ _)
    · exact hlast

/-- The place of a slash is looked for behind where the closing tag begins, or one before that. -/
theorem moderate_closing (mapper : Mapper .checked) (id : NodeId) (tag : String) :
    mapper.Moderate (mapper.closing id tag) := by
  have hadvances := mapper.advances_closing id tag
  refine ⟨hadvances, fun cursor sum hmem => ?_⟩
  have hadded := (hadvances cursor).between.2
  obtain ⟨hwritten, hassigned, hbounded⟩ := hadvances cursor
  let closed := (mapper.span (.node id) .closingTag (3 + tag.length) cursor).1
  have hclosed : closed.assigned = cursor.assigned + (3 + tag.length) := by
    show ((cursor.written + (3 + tag.length) : Nat) : Int) - cursor.extra = _
    simp only [Cursor.assigned]
    omega
  have hspanned : (mapper.closing id tag cursor).1.written =
      cursor.written + (3 + tag.length) := rfl
  have hsums : (mapper.closing id tag cursor).2.sums = [closed.assigned, closed.assigned - 1,
      closed.assigned - 1 - (3 + tag.length : Nat), (mapper.closing id tag cursor).1.extra] := rfl
  simp only [hsums, List.mem_cons, List.not_mem_nil, or_false] at hmem
  rcases hmem with rfl | rfl | rfl | rfl
  · constructor <;> omega
  · constructor <;> omega
  · constructor <;> omega
  · exact hadded

/-- The sums of every walk lie between its ends. -/
theorem composes_moderate (mapper : Mapper .checked) : mapper.Composes mapper.Moderate where
  stay := mapper.moderate_stay
  andThen := Moderate.andThen
  skip := mapper.moderate_skip
  advance count := moderate_of_silent (mapper.advances_advance count) fun _ => rfl
  mismatch := mapper.moderate_mismatch
  mark _ := moderate_of_silent (mapper.advances_emit _ _ _) fun _ => rfl
  text := mapper.moderate_text
  comment id content := moderate_of_silent (mapper.advances_comment id content) fun _ => rfl
  opening _ _ := mapper.moderate_opening _ _ _
  closing := mapper.moderate_closing

/-- Where the walk of an assignment ends, with its counts kept without bound. -/
def walked (closingTags : ClosingTags) (fragment : Fragment) (container : NodeId)
    (assigned : Operand RecordId) (options : MapOptions) : Cursor :=
  ((ofAssignment .checked closingTags fragment container assigned options).content container
    ⟨0, options.initialExtra.toInt⟩).1

end Mapper

section Assignment

variable {closingTags : ClosingTags} {fragment : Fragment} {container : NodeId}
  {assigned : Operand RecordId} {options : MapOptions}

/-- What is written for a container is its written form. -/
theorem written_walked (hbuilt : fragment.Built) (hproper : fragment.Proper container)
    (hremembers : closingTags.Remembers .byVoidTags) (assigned : Operand RecordId)
    (options : MapOptions) :
    (Mapper.walked closingTags fragment container assigned options).written =
      (fragment.innerHtml container).length := by
  have hlays : (Mapper.ofAssignment .checked closingTags fragment container assigned options).Lays
      _ _ := Mapper.lays_content hbuilt hremembers.eq_not_isVoid hproper
  have hwritten := (hlays ⟨0, options.initialExtra.toInt⟩).1
  rw [Nat.zero_add] at hwritten
  rw [Mapper.walked, hwritten]
  exact congrArg List.length (Fragment.written_contentPieces options.ignored hbuilt hproper)

/-- No sum leaves its word where the assigned string and what is written are together shorter than
    that, counted from where the walk sets out. -/
theorem not_overflows_of_room
    (hroom : max (-options.initialExtra.toInt) (assignedText assigned).length +
      (Mapper.walked closingTags fragment container assigned options).written < lengthLimit)
    (hextra : options.initialExtra.toInt +
      (Mapper.walked closingTags fragment container assigned options).written < lengthLimit)
    (build : Build) :
    (mapIn build closingTags fragment container assigned options).overflows = false := by
  rw [overflows_mapIn build .checked]
  let mapper := Mapper.ofAssignment .checked closingTags fragment container assigned options
  let start : Cursor := ⟨0, options.initialExtra.toInt⟩
  let stop := (mapper.content container start).1
  have hmoderate := mapper.composes_moderate.content container
  have hset : start.assigned = -options.initialExtra.toInt := Int.zero_sub _
  have hzero : start.written = 0 := rfl
  have hchars : mapper.source.chars.length = (assignedText assigned).length :=
    String.length_toList
  have hstop : (Mapper.walked closingTags fragment container assigned options).written =
      stop.written := rfl
  rw [hstop] at hroom hextra
  have hword : ∀ sum, mapper.Between start stop sum → Origin.isSigned sum = true := by
    rintro sum ⟨hlow, hhigh⟩
    rw [hset, hzero, hchars] at hlow hhigh
    exact Origin.isSigned_iff.mpr ⟨by omega, by omega⟩
  refine Report.overflows_append.mpr ⟨?_, ?_⟩
  · exact Report.overflows_eq_false_iff.mpr fun sum hmem =>
      hword sum (hmoderate.between start sum hmem)
  · refine Report.overflows_eq_false_iff.mpr fun sum hmem => ?_
    rw [List.mem_singleton.mp hmem]
    exact hword _ (hmoderate.advances start).between.1

/-- So the markup of strings that are not too long is mapped in every build. -/
theorem map?_of_room (hbuilt : fragment.Built) (hproper : fragment.Proper container)
    (hremembers : closingTags.Remembers .byVoidTags)
    (hroom : max (-options.initialExtra.toInt) (assignedText assigned).length +
      (fragment.innerHtml container).length < lengthLimit)
    (hextra : options.initialExtra.toInt + (fragment.innerHtml container).length < lengthLimit)
    (build : Build) : map? build closingTags fragment container assigned options =
      some (map closingTags fragment container assigned options) := by
  rw [← written_walked hbuilt hproper hremembers assigned options] at hroom hextra
  have hfits := not_overflows_of_room hroom hextra
  refine Build.result?_eq_some_iff.mpr ⟨fun _ => ?_, mapIn_eq (hfits .checked) build⟩
  exact Report.overflows_eq_false_iff.mp (hfits build)

/-- The position that the least number of added characters sets is no signed word, and the walk
    does not come back from there. -/
theorem overflows_of_minValue (hleast : options.initialExtra = Int64.minValue) (build : Build) :
    (mapIn build closingTags fragment container assigned options).overflows = true := by
  rw [overflows_mapIn build .checked, ← Bool.not_eq_false]
  intro hfits
  let mapper := Mapper.ofAssignment .checked closingTags fragment container assigned options
  let start : Cursor := ⟨0, options.initialExtra.toInt⟩
  have hforward := (mapper.composes_advances.content container start).assigned
  have hset : start.assigned = lengthLimit := by
    simp only [start, hleast]
    rfl
  have hreached := Report.overflows_eq_false_iff.mp (Report.overflows_append.mp hfits).2
    (mapper.content container start).1.assigned List.mem_cons_self
  have hword := (Origin.isSigned_iff.mp hreached).2
  omega

end Assignment

end Provenance.Markup
