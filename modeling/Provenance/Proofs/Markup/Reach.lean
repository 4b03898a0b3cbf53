import Provenance.Proofs.Markup.Leads
import Provenance.Proofs.Markup.Onward

/-! # How far characters lead

Where nothing is known about the assigned string, a character may lead to the wrong place, but
not anywhere: never before the position that the walk set out from, and behind the end of the
assigned string by no more than what has been written. So a lookup never falls off the front, and
its sums stay as small as the strings are.
-/

namespace Provenance.Markup

namespace Source

variable {source : Source .checked} {keeps : Bool} {position added low offset : Int}
    {k inside : Nat}

/-- An entry of a table leads back to where the table begins at most, and forward to the end of the
    assigned string at most, if it begins before that. -/
theorem corrections_reach {text : List Char} (hlow : low ≤ position)
    (hinside : 0 < inside → low + 1 ≤ position)
    (hentry : (source.corrections keeps text inside position added).1[k]? = some offset) :
    low ≤ position + added + k + offset ∧
      position + added + offset ≤ max position source.chars.length := by
  induction text generalizing inside position added k with
  | nil => cases hentry
  | cons c rest ih =>
      cases inside with
      | succ inside =>
          rw [corrections_inside] at hentry
          have hbehind := hinside (Nat.succ_pos _)
          cases k with
          | zero =>
              have hoffset : -(added + 1) = offset := Option.some.inj hentry
              omega
          | succ k =>
              obtain ⟨hfirst, hlast⟩ := ih hlow (fun _ => hbehind) hentry
              omega
      | zero =>
          by_cases hstop : source.contentEnd ≤ position
          · rw [corrections_stop c rest hstop] at hentry
            cases k with
            | zero =>
                have hoffset : -added = offset := Option.some.inj hentry
                omega
            | succ k => cases hentry
          · obtain ⟨inside, gain, hgain, hthere, heq⟩ :=
              corrections_step source keeps c rest added (Int.not_le.mp hstop)
            rw [heq] at hentry
            cases k with
            | zero =>
                have hoffset : -added = offset := Option.some.inj hentry
                omega
            | succ k =>
                have hmoved : low + 1 ≤ position + 1 + gain := by omega
                obtain ⟨hfirst, hlast⟩ := ih (by omega) (fun _ => hmoved) hentry
                omega

theorem table_reach {tag : String} {text : List Char}
    (hentry : (source.table tag text position).1[k]? = some offset) :
    0 ≤ k + offset ∧ position + offset ≤ max position source.chars.length := by
  have hnone : 0 < 0 → position + 1 ≤ position := fun hlt => absurd hlt (Nat.lt_irrefl 0)
  have hreach := corrections_reach (Int.le_refl position) hnone hentry
  omega

end Source

/-- Behind its end, a list that goes on with its last item has that item. -/
theorem getElem?_padded {items : List α} {count k : Nat} {default item : α} (hne : items ≠ [])
    (hentry : (items ++ List.replicate count (items.getLast?.getD default))[k]? = some item) :
    items[min k (items.length - 1)]? = some item := by
  have hpos := List.length_pos_iff.mpr hne
  rcases Nat.lt_or_ge k items.length with hlt | hge
  · rw [List.getElem?_append_left hlt] at hentry
    rwa [Nat.min_eq_left (by omega)]
  · rw [List.getElem?_append_right hge, List.getElem?_replicate] at hentry
    split at hentry
    · have hlast := List.getLast?_eq_getElem? (l := items)
      have hthere := List.getElem?_eq_getElem (show items.length - 1 < items.length by omega)
      rw [hlast, hthere, Option.getD_some] at hentry
      rw [Nat.min_eq_right (by omega), hthere, hentry]
    · cases hentry

namespace Mapper

variable {mapper : Mapper .checked} {tag : String} {escaped : List Char} {quoted : Bool}
  {beforeEquals beforeQuote position start offset : Int} {k : Nat} {attr : Attribute}

/-- The marks and the value behind the equals sign lead to the value: not before the opening quote,
    and not behind the end of the assigned string. -/
theorem valueOffsets_reach
    (hget : (mapper.valueOffsets tag escaped quoted beforeEquals beforeQuote position).1[k + 1]? =
      some offset) :
    let opened := if quoted then beforeQuote else beforeQuote + 1
    0 ≤ k + offset + opened ∧
      position + offset + opened ≤ max position mapper.source.chars.length := by
  intro opened
  let table := (mapper.source.table tag escaped position).1
  let padded := table ++ List.replicate (escaped.length - table.length) (table.getLast?.getD 0)
  let offsets := -beforeEquals :: -opened :: padded.map (· - opened)
  have hlast : (offsets ++ List.replicate 1 (offsets.getLast?.getD 0))[k + 1]? = some offset := hget
  -- The closing quote is corrected like some character before it.
  obtain ⟨i, hi, hentry⟩ : ∃ i ≤ k, offsets[i + 1]? = some offset := by
    have hthere := getElem?_padded (List.cons_ne_nil _ _) hlast
    have hlength : 2 ≤ offsets.length := Nat.le_add_left 2 _
    exact ⟨min (k + 1) (offsets.length - 1) - 1, by omega, by
      rwa [Nat.sub_add_cancel (by omega)]⟩
  cases i with
  | zero =>
      have hoffset : -opened = offset := Option.some.inj hentry
      omega
  | succ i =>
      simp only [offsets, List.getElem?_cons_succ, List.getElem?_map,
        Option.map_eq_some_iff] at hentry
      obtain ⟨entry, hentry, rfl⟩ := hentry
      by_cases hempty : table = []
      · simp only [padded, hempty, List.nil_append, List.getLast?_nil, Option.getD_none] at hentry
        have hzero := List.eq_of_mem_replicate (List.mem_of_getElem? hentry)
        omega
      · obtain ⟨hfirst, hlast⟩ := Source.table_reach (getElem?_padded hempty hentry)
        omega

/-- The characters of an attribute lead to where it begins or behind, and not behind the end of the
    assigned string by more than what has been written of it. -/
theorem spelling_reach (mapper : Mapper .checked) (tag : String) (attr : Attribute) (start : Int) :
    0 ≤ (mapper.spelling tag attr start).nameOffset ∧
    start + (mapper.spelling tag attr start).nameOffset ≤
      max start mapper.source.chars.length ∧
    ∀ (k : Nat) (offset : Int), (mapper.spelling tag attr start).valueOffsets[k]? = some offset →
      0 ≤ 1 + attr.name.length + k + offset ∧
        start + offset ≤ max start mapper.source.chars.length := by
  obtain ⟨blanks, added, hblanks, hname, hvalue⟩ := mapper.spelling_cases tag attr start
  have hfirst : 0 ≤ -added ∧ start + -added ≤ max start mapper.source.chars.length := by
    clear hvalue
    omega
  rw [hname]
  refine ⟨hfirst.1, hfirst.2, fun k offset hentry => ?_⟩
  rcases hvalue with ⟨hoffsets, -, -⟩ | ⟨before, after, quoted, hbefore, hafter, hvalue⟩
  · rw [hoffsets] at hentry
    match k, hentry with
    | 0, hentry => have hoffset : -(added + 1) = offset := Option.some.inj hentry; omega
    | 1, hentry => have hoffset : -(added + 2) = offset := Option.some.inj hentry; omega
    | 2, hentry => have hoffset : -(added + 3) = offset := Option.some.inj hentry; omega
  · have hoffsets := congrArg Prod.fst hvalue
    simp only at hoffsets
    rw [hoffsets] at hentry
    cases k with
    | zero =>
        have hoffset : -(added - before) = offset := Option.some.inj hentry
        omega
    | succ k =>
        have hreach := valueOffsets_reach hentry
        cases quoted with
        | true =>
            simp only [if_true] at hreach
            omega
        | false =>
            simp only [Bool.false_eq_true, if_false] at hreach
            omega

/-- A character without a correction of its own leads as far into the assigned string as it stands
    in the span. -/
theorem assignedPosition_cases (start : Nat) (extra : Int) (offsets : Option (List Int))
    (relative : Nat) :
    assignedPosition start extra offsets relative = start - extra + relative ∨
      ∃ table offset, offsets = some table ∧ table[relative]? = some offset ∧
        assignedPosition start extra offsets relative = start - extra + relative + offset := by
  cases offsets with
  | none => exact .inl (assignedPosition_none _ _ _)
  | some table =>
      cases hentry : table[relative]? with
      | none => exact .inl (by simp [assignedPosition, hentry])
      | some offset => exact .inr ⟨table, offset, rfl, hentry, assignedPosition_some hentry _ _⟩

/-- Whether a span is begun and ended between two cursors, and its characters lead to the position
of the first cursor or behind, and not behind the end of the assigned string by more than what has
been written since. Corrections lead forward by no more than what is assigned behind there. -/
structure SpanInReach (mapper : Mapper .checked) (a b : Cursor) (start length : Nat) (extra : Int)
    (offsets : Option (List Int)) : Prop where
  follows : a.Follows ⟨start, extra⟩
  stop : start + length ≤ b.written
  assigned : start - extra ≤ b.assigned
  positions : ∀ relative < length, a.assigned ≤ assignedPosition start extra offsets relative ∧
    assignedPosition start extra offsets relative + a.written ≤
      max a.assigned mapper.source.chars.length + (start + relative : Nat) ∧
    assignedPosition start extra offsets relative + a.assigned ≤
      max a.assigned mapper.source.chars.length + (start - extra + relative)

/-- Whether an origin is that of such a span. -/
def InReach (mapper : Mapper .checked) (a b : Cursor) (mapped : MappedOrigin) : Prop :=
  ∃ target action start length extra offsets,
    mapped = mapper.origin target action start length extra offsets ∧
      mapper.SpanInReach a b start length extra offsets

variable {a b c d cursor : Cursor} {mapped : MappedOrigin} {first second walk : Walk}

theorem InReach.mono (h : mapper.InReach b c mapped) (hab : mapper.Onward a b)
    (hcd : c.Follows d) : mapper.InReach a d mapped := by
  obtain ⟨target, action, start, length, extra, offsets, heq, hreaches⟩ := h
  refine ⟨target, action, start, length, extra, offsets, heq, hab.follows.trans hreaches.follows,
    Nat.le_trans hreaches.stop hcd.written, Int.le_trans hreaches.assigned hcd.assigned, ?_⟩
  intro relative hlt
  obtain ⟨hfirst, hlast, hcorrection⟩ := hreaches.positions relative hlt
  obtain ⟨hwritten, hassigned, hbounded⟩ := hab
  omega

/-- A span without corrections, which begins where a cursor stands. -/
theorem reaches_span (mapper : Mapper .checked) {length : Nat}
    (hstop : a.written + length ≤ b.written) (hassigned : a.assigned ≤ b.assigned) :
    mapper.SpanInReach a b a.written length a.extra none := by
  refine ⟨.refl a, hstop, hassigned, fun relative hlt => ?_⟩
  rw [assignedPosition_none, ← Cursor.assigned]
  omega

/-- Whether a stretch moves forward and its characters stay in reach. -/
structure Bounds (mapper : Mapper .checked) (walk : Walk) : Prop where
  advances : mapper.Advances walk
  inReach : ∀ cursor, ∀ mapped ∈ (walk cursor).2.origins,
    mapper.InReach cursor (walk cursor).1 mapped

theorem Bounds.andThen (hfirst : mapper.Bounds first) (hsecond : mapper.Bounds second) :
    mapper.Bounds (first.andThen second) := by
  refine ⟨hfirst.advances.andThen hsecond.advances, fun cursor mapped hmem => ?_⟩
  rcases List.mem_append.mp hmem with hmem | hmem
  · exact (hfirst.inReach cursor mapped hmem).mono (.refl mapper cursor)
      (hsecond.advances _).follows
  · exact (hsecond.inReach _ mapped hmem).mono (hfirst.advances cursor) (.refl _)

theorem bounds_of_quiet (hadvances : mapper.Advances walk)
    (hquiet : ∀ cursor, (walk cursor).2.origins = []) : mapper.Bounds walk :=
  ⟨hadvances, fun cursor mapped hmem => by rw [hquiet] at hmem; cases hmem⟩

theorem bounds_stay (mapper : Mapper .checked) : mapper.Bounds .stay :=
  bounds_of_quiet mapper.advances_stay fun _ => rfl

theorem bounds_emit (mapper : Mapper .checked) (target : Target) (action : Action) :
    mapper.Bounds (mapper.emit target action 0) := by
  refine ⟨mapper.advances_emit _ _ _, fun cursor mapped hmem => ?_⟩
  rw [List.mem_singleton.mp hmem]
  exact ⟨_, _, _, _, _, _, rfl, mapper.reaches_span (Nat.le_refl _) (Int.le_refl _)⟩

theorem bounds_span (mapper : Mapper .checked) (target : Target) (action : Action) (length : Nat) :
    mapper.Bounds (mapper.span target action length) := by
  have hadvances := mapper.advances_span target action length
  refine ⟨hadvances, fun cursor mapped hmem => ?_⟩
  rw [List.mem_singleton.mp hmem]
  exact ⟨_, _, _, _, _, _, rfl, mapper.reaches_span (Nat.le_refl _) (hadvances cursor).assigned⟩

theorem bounds_text (mapper : Mapper .checked) (id : NodeId) (parentTag content : String) :
    mapper.Bounds (mapper.text id parentTag content) := by
  have hadvances := mapper.advances_text id parentTag content
  refine ⟨hadvances, fun cursor mapped hmem => ?_⟩
  rw [List.mem_singleton.mp hmem]
  refine ⟨_, _, _, _, _, _, rfl, .refl cursor, Nat.le_refl _, (hadvances cursor).assigned,
    fun relative hlt => ?_⟩
  rcases assignedPosition_cases cursor.written cursor.extra _ relative with
    hposition | ⟨table, offset, htable, hentry, hposition⟩
  · rw [hposition, ← Cursor.assigned]
    omega
  · have hthere : (mapper.source.table parentTag (escapeText parentTag content.toList)
        cursor.assigned).1[relative]? = some offset := by
      split at htable
      · cases htable
      · rw [← Option.some.inj htable] at hentry
        exact hentry
    obtain ⟨hfirst, hlast⟩ := Source.table_reach hthere
    rw [hposition, ← Cursor.assigned]
    omega

theorem bounds_comment (mapper : Mapper .checked) (id : NodeId) (content : String) :
    mapper.Bounds (mapper.comment id content) :=
  (mapper.bounds_span _ _ _).andThen ((mapper.bounds_span _ _ _).andThen
    ((mapper.bounds_span _ _ _).andThen mapper.bounds_stay))

theorem bounds_attribute (mapper : Mapper .checked) (id : NodeId) (tag : String)
    (attr : Attribute) : mapper.Bounds (mapper.attributeSpans id tag attr) := by
  have hadvances := mapper.advances_attribute id tag attr
  refine ⟨hadvances, fun cursor mapped hmem => ?_⟩
  obtain ⟨hadded, -⟩ := mapper.spelling_bounds tag attr cursor.assigned
  obtain ⟨hname, hnameEnd, hvalue⟩ := mapper.spelling_reach tag attr cursor.assigned
  simp only [attributeSpans, List.mem_cons, List.not_mem_nil, or_false] at hmem
  rcases hmem with rfl | rfl
  · refine ⟨_, _, _, _, _, _, rfl, .refl cursor, Nat.le_add_right _ _,
      (hadvances cursor).assigned, fun relative hlt => ?_⟩
    have hoffset := @List.getElem?_replicate_of_lt _
      (mapper.spelling tag attr cursor.assigned).nameOffset (1 + attr.name.length) relative hlt
    rw [assignedPosition_some hoffset, ← Cursor.assigned]
    omega
  · have hassigned : cursor.assigned = cursor.written - cursor.extra := rfl
    refine ⟨_, _, _, _, _, _, rfl, ⟨Nat.le_add_right _ _, ?_⟩, Nat.le_refl _, ?_,
      fun relative hlt => ?_⟩
    · simp only [Cursor.assigned]
      omega
    · simp only [attributeSpans, Cursor.assigned] at hadded ⊢
      omega
    rcases assignedPosition_cases (cursor.written + (1 + attr.name.length)) cursor.extra
      (some (mapper.spelling tag attr cursor.assigned).valueOffsets) relative with
      hposition | ⟨table, offset, htable, hentry, hposition⟩
    · rw [hposition]
      omega
    · rw [← Option.some.inj htable] at hentry
      obtain ⟨hfirst, hlast⟩ := hvalue relative offset hentry
      rw [hposition]
      omega

/-- What comes before the end of an opening tag is in reach of what comes before that. The end
    itself is written last, so it is in reach if the whole tag is. -/
theorem bounds_opening (mapper : Mapper .checked) (id : NodeId) (tag : String)
    (attributes : List Attribute) : mapper.Bounds (mapper.opening id tag attributes) := by
  have hadvances := mapper.advances_opening id tag attributes
  refine ⟨hadvances, fun cursor mapped hmem => ?_⟩
  let inside : Walk := (mapper.span (.node id) .openingTagStart (1 + tag.length)).andThen
    (.all (attributes.map (mapper.attributeSpans id tag)))
  have hinside : mapper.Bounds inside :=
    (mapper.bounds_span _ _ _).andThen (Walk.all_of mapper.bounds_stay Bounds.andThen fun attr _ =>
      mapper.bounds_attribute id tag attr)
  let needless : Walk := if mapper.closingTags tag then .stay else mapper.needlessEnd tag
  let blank := (mapper.tagBlanks (inside cursor).1).1
  let last := (needless blank).1
  have hneedless : (needless blank).2.origins = [] ∧ last.written = blank.written ∧
      blank.assigned ≤ last.assigned := by
    simp only [last, needless]
    split
    · exact ⟨rfl, rfl, Int.le_refl _⟩
    · obtain ⟨hwritten, hassigned, -⟩ := mapper.needlessEnd_bounds tag blank
      exact ⟨rfl, hwritten, hassigned⟩
  obtain ⟨hquiet, hwritten, hassigned⟩ := hneedless
  have horigins : (mapper.opening id tag attributes cursor).2.origins =
      (inside cursor).2.origins ++ ((needless blank).2.origins ++
        [mapper.origin (.node id) .openingTagEnd last.written 1 last.extra none]) :=
    (List.append_assoc _ _ _).symm
  rw [horigins, hquiet, List.nil_append, List.mem_append, List.mem_singleton] at hmem
  have hstop : (mapper.opening id tag attributes cursor).1 = ⟨last.written + 1, last.extra⟩ := rfl
  obtain ⟨-, -, hbounded⟩ := hadvances cursor
  rw [hstop] at hbounded ⊢
  have hblank := (hinside.advances.andThen mapper.advances_tagBlanks cursor).follows
  have hlast : blank.Follows last := ⟨Nat.le_of_eq hwritten.symm, hassigned⟩
  have hended : last.Follows ⟨last.written + 1, last.extra⟩ := by
    refine ⟨Nat.le_succ _, ?_⟩
    simp only [Cursor.assigned]
    omega
  rcases hmem with hmem | rfl
  · exact (hinside.inReach cursor mapped hmem).mono (.refl mapper cursor)
      (((mapper.advances_tagBlanks _).follows.trans hlast).trans hended)
  · refine ⟨_, _, _, _, _, _, rfl, hblank.trans hlast, Nat.le_refl _, hended.assigned,
      fun relative hlt => ?_⟩
    rw [assignedPosition_none]
    have hfirst := (hblank.trans hlast).assigned
    simp only [Cursor.assigned] at hfirst hbounded ⊢
    omega

/-- Every walk keeps in reach. -/
theorem composes_bounds (mapper : Mapper .checked) : mapper.Composes mapper.Bounds where
  stay := mapper.bounds_stay
  andThen := Bounds.andThen
  skip count := bounds_of_quiet (mapper.advances_skip count) fun _ => rfl
  advance count := bounds_of_quiet (mapper.advances_advance count) fun _ => rfl
  mismatch cause := bounds_of_quiet (mapper.advances_mismatch cause) fun _ => rfl
  mark _ := mapper.bounds_emit _ _
  text := mapper.bounds_text
  comment := mapper.bounds_comment
  opening _ _ := mapper.bounds_opening _ _ _
  closing id tag := by
    have hadvances := mapper.advances_closing id tag
    refine ⟨hadvances, fun cursor mapped hmem => ?_⟩
    rw [List.mem_singleton.mp hmem]
    exact ⟨_, _, _, _, _, _, rfl, mapper.reaches_span (Nat.le_refl _) (hadvances cursor).assigned⟩

/-- Every origin of a mapping is in reach of where its walk begins and where it ends. -/
theorem inReach_map (closingTags : ClosingTags) (fragment : Fragment) (container : NodeId)
    (assigned : Operand RecordId) (options : MapOptions) :
    let mapper := ofAssignment .checked closingTags fragment container assigned options
    let start : Cursor := ⟨0, options.initialExtra.toInt⟩
    ∀ mapped ∈ (map closingTags fragment container assigned options).origins,
      mapper.InReach start (mapper.content container start).1 mapped := by
  rw [origins_map]
  exact ((composes_bounds _).content container).inReach _

end Mapper

end Provenance.Markup
