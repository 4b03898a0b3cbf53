import Provenance.Proofs.Markup.Tiling

/-! # The trail of a walk

Every origin keeps the place where its span was begun: what had been written and how many
characters more than assigned. Along a walk these places follow each other, on the written side
and on the assigned one. So read in order, the spans of a mapping never go back in the assigned
string, whatever it is, and none begins before the position that the walk set out from.
-/

namespace Provenance.Markup

/-- The assigned position where a span begins. -/
def Origin.base (origin : Origin) : Int := origin.start.toNat - origin.extra.toInt

namespace Mapper

variable {mapper : Mapper .checked} {a b c : Cursor} {first second walk : Walk}
  {front back origins : List MappedOrigin}

/-- The origins that a walk leaves between two cursors. The places where their spans begin follow
    each other, and the numbers of characters added before them are among the given counts. -/
inductive Trail (mapper : Mapper .checked) (counts : List Int) :
    Cursor → List MappedOrigin → Cursor → Prop
  | stay {a b : Cursor} (hfollows : a.Follows b) : Trail mapper counts a [] b
  | span {a b : Cursor} {start : Nat} {extra : Int} {origins : List MappedOrigin}
      (target : Target) (action : Action) (length : Nat) (offsets : Option (List Int))
      (hcount : extra ∈ counts) (hfollows : a.Follows ⟨start, extra⟩)
      (hrest : Trail mapper counts ⟨start, extra⟩ origins b) :
      Trail mapper counts a (mapper.origin target action start length extra offsets :: origins) b

variable {counts more : List Int}

theorem Trail.follows (h : mapper.Trail counts a origins b) : a.Follows b := by
  induction h with
  | stay hfollows => exact hfollows
  | span _ _ _ _ _ hfollows _ ih => exact hfollows.trans ih

theorem Trail.mono (h : mapper.Trail counts a origins b) (hsubset : counts ⊆ more) :
    mapper.Trail more a origins b := by
  induction h with
  | stay hfollows => exact .stay hfollows
  | span target action length offsets hcount hfollows _ ih =>
      exact .span target action length offsets (hsubset hcount) hfollows ih

theorem Trail.from (hab : a.Follows b) (h : mapper.Trail counts b origins c) :
    mapper.Trail counts a origins c := by
  cases h with
  | stay hfollows => exact .stay (hab.trans hfollows)
  | span target action length offsets hcount hfollows hrest =>
      exact .span target action length offsets hcount (hab.trans hfollows) hrest

theorem Trail.append (hfront : mapper.Trail counts a front b)
    (hback : mapper.Trail counts b back c) : mapper.Trail counts a (front ++ back) c := by
  induction hfront with
  | stay hfollows => exact hback.from hfollows
  | span target action length offsets hcount hfollows _ ih =>
      exact .span target action length offsets hcount hfollows (ih hback)

/-- Where the numbers of an origin are words, they give the place where its span begins. -/
theorem base_origin (mapper : Mapper .checked) (target : Target) (action : Action) (length : Nat)
    (offsets : Option (List Int)) {start : Nat} {extra : Int} (hstart : start < UInt64.size)
    (hextra : Origin.isSigned extra = true) :
    (mapper.origin target action start length extra offsets).origin.base = start - extra := by
  have hword : (UInt64.ofNat start).toNat = start := UInt64.toNat_ofNat_of_lt' hstart
  simp only [Origin.base, origin, hword, Origin.toInt_ofInt_of_isSigned hextra]

/-- The spans of a trail whose counts are words begin one behind the other, none before its start or
    behind its end. -/
theorem Trail.rising (h : mapper.Trail counts a origins b)
    (hcounts : ∀ count ∈ counts, Origin.isSigned count = true) (hwords : b.written < UInt64.size) :
    origins.Pairwise (fun x y => x.origin.base ≤ y.origin.base) ∧
      ∀ mapped ∈ origins, a.assigned ≤ mapped.origin.base := by
  induction h with
  | stay => exact ⟨.nil, fun mapped hmem => nomatch hmem⟩
  | @span a b start extra origins target action length offsets hcount hfollows hrest ih =>
      have hbehind : start ≤ b.written := hrest.follows.written
      have hbase := mapper.base_origin target action length offsets
        (show start < UInt64.size by omega) (hcounts extra hcount)
      obtain ⟨hpairwise, hfirst⟩ := ih hwords
      refine ⟨.cons (fun mapped hmem => ?_) hpairwise, fun mapped hmem => ?_⟩
      · rw [hbase]
        exact hfirst mapped hmem
      · rcases List.mem_cons.mp hmem with rfl | hmem
        · rw [hbase]
          exact hfollows.assigned
        · exact Int.le_trans hfollows.assigned (hfirst mapped hmem)

/-- What an origin keeps as added is what had been added, one of the counts: no more than has been
    written since the start, and no less than the last position allows. -/
theorem Trail.exists_extra (h : mapper.Trail counts a origins b) :
    ∀ mapped ∈ origins, ∃ extra ∈ counts, mapped.origin.extra = Int64.ofInt extra ∧
      -b.assigned ≤ extra ∧ extra ≤ b.written - a.assigned := by
  induction h with
  | stay => exact fun mapped hmem => nomatch hmem
  | @span a b start extra origins target action length offsets hcount hfollows hrest ih =>
      obtain ⟨hwritten, hassigned⟩ := hfollows
      obtain ⟨hwritten', hassigned'⟩ := hrest.follows
      simp only [Cursor.assigned] at hwritten hassigned hwritten' hassigned' ih ⊢
      intro mapped hmem
      rcases List.mem_cons.mp hmem with rfl | hmem
      · exact ⟨extra, hcount, rfl, by omega, by omega⟩
      · obtain ⟨added, hadded, heq, hlow, hhigh⟩ := ih mapped hmem
        exact ⟨added, hadded, heq, by omega, by omega⟩

/-- Whether a stretch leaves a trail, wherever it sets out. What is added is either what it set out
    with or one of its sums. -/
structure Treads (mapper : Mapper .checked) (walk : Walk) : Prop where
  trail : ∀ cursor, mapper.Trail (cursor.extra :: (walk cursor).2.sums) cursor
    (walk cursor).2.origins (walk cursor).1
  count : ∀ cursor, (walk cursor).1.extra ∈ cursor.extra :: (walk cursor).2.sums

theorem Treads.andThen (hfirst : mapper.Treads first) (hsecond : mapper.Treads second) :
    mapper.Treads (first.andThen second) := by
  have hsums : ∀ cursor, (first cursor).1.extra :: (second (first cursor).1).2.sums ⊆
      cursor.extra :: ((first cursor).2.sums ++ (second (first cursor).1).2.sums) := by
    intro cursor
    refine List.cons_subset.mpr ⟨?_, fun sum hmem => ?_⟩
    · exact List.mem_append_left _ (hfirst.count cursor)
    · exact List.mem_cons_of_mem _ (List.mem_append_right _ hmem)
  refine ⟨fun cursor => ?_, fun cursor => hsums cursor (hsecond.count _)⟩
  refine ((hfirst.trail cursor).mono fun sum hmem => ?_).append
    ((hsecond.trail _).mono (hsums cursor))
  exact List.mem_append_left _ hmem

theorem treads_of_quiet (hfollows : ∀ cursor : Cursor, cursor.Follows (walk cursor).1)
    (hcount : ∀ cursor, (walk cursor).1.extra ∈ cursor.extra :: (walk cursor).2.sums)
    (hquiet : ∀ cursor, (walk cursor).2.origins = []) : mapper.Treads walk := by
  refine ⟨fun cursor => ?_, hcount⟩
  rw [hquiet]
  exact .stay (hfollows cursor)

/-- A stretch that yields one origin, before it moves. -/
theorem treads_of_one (hadvances : mapper.Advances walk)
    (hcount : ∀ cursor, (walk cursor).1.extra ∈ cursor.extra :: (walk cursor).2.sums)
    (hone : ∀ cursor, ∃ target action length offsets, (walk cursor).2.origins =
      [mapper.origin target action cursor.written length cursor.extra offsets]) :
    mapper.Treads walk := by
  refine ⟨fun cursor => ?_, hcount⟩
  obtain ⟨target, action, length, offsets, horigins⟩ := hone cursor
  rw [horigins]
  exact .span target action length offsets List.mem_cons_self (.refl cursor)
    (.stay (hadvances cursor).follows)

theorem treads_stay (mapper : Mapper .checked) : mapper.Treads .stay :=
  treads_of_quiet (fun cursor => .refl cursor) (fun _ => List.mem_cons_self) fun _ => rfl

theorem treads_span (mapper : Mapper .checked) (target : Target) (action : Action) (length : Nat) :
    mapper.Treads (mapper.span target action length) :=
  treads_of_one (mapper.advances_span target action length) (fun _ => List.mem_cons_self)
    fun _ => ⟨target, action, length, none, rfl⟩

theorem treads_comment (mapper : Mapper .checked) (id : NodeId) (content : String) :
    mapper.Treads (mapper.comment id content) :=
  (mapper.treads_span _ _ _).andThen ((mapper.treads_span _ _ _).andThen
    ((mapper.treads_span _ _ _).andThen mapper.treads_stay))

/-- The value begins behind the name, on both sides. -/
theorem treads_attribute (mapper : Mapper .checked) (id : NodeId) (tag : String)
    (attr : Attribute) : mapper.Treads (mapper.attributeSpans id tag attr) := by
  refine ⟨fun cursor => ?_, fun cursor => ?_⟩
  · obtain ⟨hadded, -⟩ := mapper.spelling_bounds tag attr cursor.assigned
    refine .span _ _ _ _ List.mem_cons_self (.refl cursor)
      (.span _ _ _ _ List.mem_cons_self ⟨?_, ?_⟩ (.stay ⟨?_, ?_⟩))
    · exact Nat.le_add_right _ _
    · simp only [Cursor.assigned]
      omega
    · exact Nat.le_add_right _ _
    · simp only [attributeSpans, Cursor.assigned] at hadded ⊢
      omega
  · exact List.mem_cons_of_mem _ (List.mem_append_right _ List.mem_cons_self)

/-- A stretch that only counts characters as added or dropped. -/
theorem treads_add (hfollows : ∀ cursor : Cursor, cursor.Follows (walk cursor).1)
    (hadds : ∀ cursor, ∃ count sums, walk cursor = Walk.add count sums cursor) :
    mapper.Treads walk := by
  refine treads_of_quiet hfollows (fun cursor => ?_) fun cursor => ?_
  · obtain ⟨count, sums, hwalk⟩ := hadds cursor
    rw [hwalk]
    exact List.mem_cons_of_mem _ (List.mem_append_right _ List.mem_cons_self)
  · obtain ⟨count, sums, hwalk⟩ := hadds cursor
    rw [hwalk]
    rfl

theorem treads_opening (mapper : Mapper .checked) (id : NodeId) (tag : String)
    (attributes : List Attribute) : mapper.Treads (mapper.opening id tag attributes) := by
  have hattributes : mapper.Treads (.all (attributes.map (mapper.attributeSpans id tag))) :=
    Walk.all_of mapper.treads_stay Treads.andThen fun attr _ => mapper.treads_attribute id tag attr
  have hblanks : mapper.Treads mapper.tagBlanks :=
    treads_add (fun cursor => (mapper.advances_tagBlanks cursor).follows) fun _ => ⟨_, _, rfl⟩
  have hneedless : mapper.Treads
      (if mapper.closingTags tag then .stay else mapper.needlessEnd tag) := by
    split
    · exact mapper.treads_stay
    · refine treads_add (fun cursor => ?_) fun _ => ⟨_, _, rfl⟩
      obtain ⟨hwritten, hassigned, -⟩ := mapper.needlessEnd_bounds tag cursor
      exact ⟨Nat.le_of_eq hwritten.symm, hassigned⟩
  exact (mapper.treads_span _ _ _).andThen (hattributes.andThen (hblanks.andThen
    (hneedless.andThen ((mapper.treads_span _ _ _).andThen mapper.treads_stay))))

/-- Every walk leaves a trail. -/
theorem composes_treads (mapper : Mapper .checked) : mapper.Composes mapper.Treads where
  stay := mapper.treads_stay
  andThen := Treads.andThen
  skip count := treads_of_quiet (fun cursor => (mapper.advances_skip count cursor).follows)
    (fun _ => List.mem_cons_of_mem _ List.mem_cons_self) fun _ => rfl
  advance count := treads_of_quiet (fun cursor => (mapper.advances_advance count cursor).follows)
    (fun _ => List.mem_cons_self) fun _ => rfl
  mismatch _ := treads_of_quiet (fun cursor => .refl cursor) (fun _ => List.mem_cons_self)
    fun _ => rfl
  mark _ := treads_of_one (mapper.advances_emit _ _ _) (fun _ => List.mem_cons_self)
    fun _ => ⟨_, _, _, _, rfl⟩
  text id parentTag content := treads_of_one (mapper.advances_text id parentTag content)
    (fun _ => List.mem_cons_of_mem _ (List.mem_append_right _ List.mem_cons_self))
    fun _ => ⟨_, _, _, _, rfl⟩
  comment := mapper.treads_comment
  opening _ _ := mapper.treads_opening _ _ _
  closing id tag := treads_of_one (mapper.advances_closing id tag)
    (fun _ => List.mem_cons_of_mem _ (List.mem_append_right _
      (List.mem_append_right _ List.mem_cons_self))) fun _ => ⟨_, _, _, _, rfl⟩

/-- Every origin of a mapping keeps a number that its walk counts as added, between bounds. -/
theorem exists_extra_map (closingTags : ClosingTags) (fragment : Fragment) (container : NodeId)
    (assigned : Operand RecordId) (options : MapOptions) :
    let mapper := ofAssignment .checked closingTags fragment container assigned options
    let start : Cursor := ⟨0, options.initialExtra.toInt⟩
    let stop := walked closingTags fragment container assigned options
    ∀ mapped ∈ (map closingTags fragment container assigned options).origins,
      ∃ extra ∈ start.extra :: (mapper.content container start).2.sums,
        mapped.origin.extra = Int64.ofInt extra ∧
          -stop.assigned ≤ extra ∧ extra ≤ stop.written - start.assigned := by
  intro mapper start stop
  rw [origins_map]
  exact ((mapper.composes_treads.content container).trail start).exists_extra

end Mapper

/-- The numbers that the walk of a mapping counts as added are words if no sum leaves its word. -/
theorem isSigned_counts {closingTags : ClosingTags} {fragment : Fragment} {container : NodeId}
    {assigned : Operand RecordId} {options : MapOptions}
    (hfits : (map closingTags fragment container assigned options).overflows = false) :
    let mapper := Mapper.ofAssignment .checked closingTags fragment container assigned options
    let start : Cursor := ⟨0, options.initialExtra.toInt⟩
    ∀ count ∈ start.extra :: (mapper.content container start).2.sums,
      Origin.isSigned count = true := by
  intro mapper start
  have hwalk := Report.overflows_eq_false_iff.mp (Report.overflows_append.mp hfits).1
  exact List.forall_mem_cons.mpr ⟨Origin.isSigned_toInt options.initialExtra, hwalk⟩

/-- Nor does such a walk end where positions are no words. -/
theorem walked_words {closingTags : ClosingTags} {fragment : Fragment} {container : NodeId}
    {assigned : Operand RecordId} {options : MapOptions}
    (hfits : (map closingTags fragment container assigned options).overflows = false) :
    let stop := Mapper.walked closingTags fragment container assigned options
    stop.assigned < lengthLimit ∧ stop.written < UInt64.size := by
  intro stop
  let mapper := Mapper.ofAssignment .checked closingTags fragment container assigned options
  let start : Cursor := ⟨0, options.initialExtra.toInt⟩
  have hassigned := Report.overflows_eq_false_iff.mp (Report.overflows_append.mp hfits).2
    stop.assigned List.mem_cons_self
  have hcount := (mapper.composes_treads.content container).count start
  have hadded := Origin.isSigned_iff.mp (isSigned_counts hfits stop.extra hcount)
  have hreached := Origin.isSigned_iff.mp hassigned
  have hsize : UInt64.size = 2 * lengthLimit := rfl
  refine ⟨hreached.2, ?_⟩
  simp only [Cursor.assigned] at hreached
  omega

/-- The assigned positions where the spans of a mapping begin never go back, from one origin to the
    next, if no sum leaves its word. None lies before the position that the options set, so with no
    characters added before the first node none lies before the assigned string. -/
theorem map_never_goes_back (closingTags : ClosingTags) (fragment : Fragment)
    (container : NodeId) (assigned : Operand RecordId) (options : MapOptions) (build : Build)
    (hfits : (mapIn build closingTags fragment container assigned options).overflows = false) :
    let origins := (mapIn build closingTags fragment container assigned options).origins
    origins.Pairwise (fun a b => (a.origin.start.toNat : Int) - a.origin.extra.toInt ≤
      b.origin.start.toNat - b.origin.extra.toInt) ∧
    (∀ mapped ∈ origins, -options.initialExtra.toInt ≤
      mapped.origin.start.toNat - mapped.origin.extra.toInt) ∧
    (options.initialExtra ≤ 0 →
      ∀ mapped ∈ origins, 0 ≤ (mapped.origin.start.toNat : Int) - mapped.origin.extra.toInt) := by
  intro origins
  let mapper := Mapper.ofAssignment .checked closingTags fragment container assigned options
  let start : Cursor := ⟨0, options.initialExtra.toInt⟩
  let stop := (mapper.content container start).1
  have hchecked := mapIn_eq hfits .checked
  have hfits' : (map closingTags fragment container assigned options).overflows = false := by
    rw [map, hchecked]
    exact hfits
  have htreads := mapper.composes_treads.content container
  have horigins : origins = (mapper.content container start).2.origins := by
    rw [← Mapper.origins_map, map, hchecked]
  have hcounts := isSigned_counts hfits'
  have hset : start.assigned = -options.initialExtra.toInt := Int.zero_sub _
  obtain ⟨hpairwise, hfirst⟩ := (htreads.trail start).rising hcounts (walked_words hfits').2
  rw [hset, ← horigins] at hfirst
  rw [← horigins] at hpairwise
  refine ⟨hpairwise, hfirst, fun hzero mapped hmem => ?_⟩
  have hnegative : options.initialExtra.toInt ≤ 0 := Int64.le_iff_toInt_le.mp hzero
  exact Int.le_trans (by omega) (hfirst mapped hmem)

/-- A string that the tree does not come from, with two characters that are not part of the markup
    in front. -/
theorem map_never_goes_back_misaligned :
    let assigned : Operand RecordId := { value := .str "xx  <p  title>/>&amp;b" }
    let origins := (map ClosingTags.byVoidTags.folded framed 0 assigned
      { initialExtra := -2, ignored := [5] }).origins
    origins.Pairwise (fun a b => (a.origin.start.toNat : Int) - a.origin.extra.toInt ≤
      b.origin.start.toNat - b.origin.extra.toInt) ∧
    (∀ mapped ∈ origins, 2 ≤ (mapped.origin.start.toNat : Int) - mapped.origin.extra.toInt) ∧
    (∀ mapped ∈ origins, 0 ≤ (mapped.origin.start.toNat : Int) - mapped.origin.extra.toInt) ∧
    origins.map (·.origin.base) = [2, 2, 4, 10, 18, 19, 19, 24, 28, 35, 39] := by
  intro assigned origins
  obtain ⟨hrising, hfirst, hinside⟩ := map_never_goes_back ClosingTags.byVoidTags.folded framed 0
    assigned { initialExtra := -2, ignored := [5] } .checked (by decide +kernel)
  exact ⟨hrising, hfirst, hinside (by decide), by decide +kernel⟩

end Provenance.Markup
