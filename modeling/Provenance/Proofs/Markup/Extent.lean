import Provenance.Proofs.Markup.Spelling

/-! # Tables that fit their spans

A correction table never runs past its text. It has an entry for every character, unless one of
the assigned positions that it looks at is at or behind the end of the content; then the
character that was looked at is the last one with an entry. The tables of an attribute do not
even stop there: they go on with the last correction, so that only a value that the assigned
string does not have at all is left with fewer entries than characters.
-/

namespace Provenance.Markup

open Provenance.Text (leadingBlanks)

namespace Source

variable {build : Build}

/-- Whether the table of a text looks at an assigned place for the character of an index. It looks
    at none for the characters inside of a reference, and at none after one that is at or behind
    the end of the content. -/
inductive Examines (source : Source build) (keeps : Bool) :
    (text : List Char) → (inside : Nat) → (position : Int) → (index : Nat) → (place : Int) → Prop
  /-- A character is looked up at the position. -/
  | here (c : Char) (rest : List Char) (position : Int) :
      Examines source keeps (c :: rest) 0 position 0 position
  /-- A character inside of a reference is passed over. -/
  | inside {c : Char} {rest : List Char} {inside index : Nat} {position place : Int}
      (hlater : Examines source keeps rest inside position index place) :
      Examines source keeps (c :: rest) (inside + 1) position (index + 1) place
  /-- A character was looked up, and its place was part of the content. -/
  | next {c : Char} {rest : List Char} {index : Nat} {position place : Int}
      (hbefore : build.position position < source.contentEnd)
      (hlater : Examines source keeps rest (source.pair keeps (c :: rest) position).1
        (position + 1 + (source.pair keeps (c :: rest) position).2) index place) :
      Examines source keeps (c :: rest) 0 position (index + 1) place

variable {source : Source build} {keeps : Bool} {text rest : List Char} {inside index : Nat}
  {position added place : Int}

theorem length_corrections_le (source : Source build) (keeps : Bool) (text : List Char)
    (inside : Nat) (position added : Int) :
    (source.corrections keeps text inside position added).1.length ≤ text.length := by
  induction text generalizing inside position added with
  | nil => exact Nat.le_refl 0
  | cons c rest ih =>
      cases inside with
      | succ inside =>
          rw [corrections_inside]
          exact Nat.succ_le_succ (ih _ _ _)
      | zero =>
          by_cases hbefore : build.position position < source.contentEnd
          · rw [corrections_go c rest hbefore]
            exact Nat.succ_le_succ (ih _ _ _)
          · rw [corrections_stop c rest (Int.not_lt.mp hbefore)]
            exact Nat.succ_le_succ (Nat.zero_le _)

/-- The place that is looked at for a character is the one that its entry leads to. -/
theorem Examines.entry (hexamines : source.Examines keeps text inside position index place)
    (added : Int) : (source.corrections keeps text inside position added).1[index]? =
      some (place - (position + added) - index) := by
  induction hexamines generalizing added with
  | here c rest position =>
      have hfirst : (source.corrections keeps (c :: rest) 0 position added).1.head? =
          some (-added) := by
        by_cases hbefore : build.position position < source.contentEnd
        · rw [corrections_go c rest hbefore]
          rfl
        · rw [corrections_stop c rest (Int.not_lt.mp hbefore)]
          rfl
      rw [← List.head?_eq_getElem?, hfirst]
      congr 1
      omega
  | inside hlater ih =>
      rw [corrections_inside, List.getElem?_cons_succ, ih]
      congr 1
      omega
  | next hbefore hlater ih =>
      rw [corrections_go _ _ hbefore, List.getElem?_cons_succ, ih]
      congr 1
      omega

/-- A place that is not part of the content is the last one. -/
theorem Examines.length_eq (hexamines : source.Examines keeps text inside position index place)
    (hbehind : source.contentEnd ≤ build.position place) (added : Int) :
    (source.corrections keeps text inside position added).1.length = index + 1 := by
  induction hexamines generalizing added with
  | here c rest position =>
      rw [corrections_stop c rest hbehind]
      rfl
  | inside hlater ih =>
      rw [corrections_inside, List.length_cons, ih hbehind]
  | next hbefore hlater ih =>
      rw [corrections_go _ _ hbefore, List.length_cons, ih hbehind]

theorem length_corrections
    (hwithin : ∀ index place, source.Examines keeps text inside position index place →
      build.position place < source.contentEnd) (added : Int) :
    (source.corrections keeps text inside position added).1.length = text.length := by
  induction text generalizing inside position added with
  | nil => rfl
  | cons c rest ih =>
      cases inside with
      | succ inside =>
          rw [corrections_inside, List.length_cons,
            ih fun index place hlater => hwithin _ _ (.inside hlater)]
          rfl
      | zero =>
          have hbefore := hwithin 0 position (.here c rest position)
          rw [corrections_go c rest hbefore, List.length_cons,
            ih fun index place hlater => hwithin _ _ (.next hbefore hlater)]
          rfl

/-- For every character that is looked up, its index counted from where the text begins and the
    place that is looked at are summed up, and nothing else is. -/
theorem mem_sums_iff {sum : Int} : sum ∈ source.sums keeps text inside position added ↔
    ∃ index place, source.Examines keeps text inside position index place ∧
      (sum = position + added + index ∨ sum = place) := by
  constructor
  · intro hmem
    induction text generalizing inside position added with
    | nil => cases hmem
    | cons c rest ih =>
        cases inside with
        | succ inside =>
            obtain ⟨index, place, hexamines, hsummed⟩ := ih hmem
            exact ⟨index + 1, place, .inside hexamines, by omega⟩
        | zero =>
            rw [Source.sums] at hmem
            rcases List.mem_cons.mp hmem with rfl | hmem
            · exact ⟨0, position, .here c rest position, by omega⟩
            rcases List.mem_cons.mp hmem with rfl | hmem
            · exact ⟨0, sum, .here c rest sum, .inr rfl⟩
            split at hmem
            · cases hmem
            · rename_i hbefore
              obtain ⟨index, place, hexamines, hsummed⟩ := ih hmem
              exact ⟨index + 1, place, .next (Int.not_le.mp hbefore) hexamines, by omega⟩
  · rintro ⟨index, place, hexamines, hsummed⟩
    induction hexamines generalizing added with
    | here c rest position =>
        rw [Source.sums, List.mem_cons, List.mem_cons]
        omega
    | inside hbehind ih => exact ih (by omega)
    | @next c rest index position place hbefore hbehind ih =>
        have hlater := @ih (added - (source.pair keeps (c :: rest) position).2) (by omega)
        rw [Source.sums, if_neg (Int.not_le.mpr hbefore)]
        exact List.mem_cons_of_mem _ (List.mem_cons_of_mem _ hlater)

/-- The sums of a table are signed words if those of every character that is looked up are. -/
theorem isSigned_tableSums_iff {tag : String} :
    (∀ sum ∈ source.tableSums tag text position, Origin.isSigned sum = true) ↔
      Origin.isSigned position = true ∧
        ∀ index place, source.Examines (keepsReferences tag) text 0 position index place →
          Origin.isSigned (position + index) = true ∧ Origin.isSigned place = true := by
  rw [tableSums, List.forall_mem_cons]
  refine and_congr_right fun _ => ?_
  constructor
  · intro hsigned index place hexamines
    exact ⟨hsigned _ (mem_sums_iff.mpr ⟨index, place, hexamines, by omega⟩),
      hsigned _ (mem_sums_iff.mpr ⟨index, place, hexamines, .inr rfl⟩)⟩
  · intro hsigned sum hmem
    obtain ⟨index, place, hexamines, rfl | rfl⟩ := mem_sums_iff.mp hmem
    · rw [Int.add_zero]
      exact (hsigned index place hexamines).1
    · exact (hsigned index _ hexamines).2

theorem head?_table (source : Source build) (tag : String) (c : Char) (rest : List Char)
    (position : Int) : (source.table tag (c :: rest) position).1.head? = some 0 := by
  have hhere : source.Examines (keepsReferences tag) (c :: rest) 0 position 0 position :=
    .here c rest position
  have hfirst := hhere.entry 0
  rw [List.head?_eq_getElem?, table, hfirst]
  congr 1
  omega

/-- How long a table is, where it begins, and how many characters it counts as added. -/
structure TableFits (source : Source build) (tag : String) (text : List Char) (position : Int) :
    Prop where
  length_le : (source.table tag text position).1.length ≤ text.length
  /-- No character is left out as long as only places in the content are looked at. -/
  length_eq : (∀ index place,
    source.Examines (keepsReferences tag) text 0 position index place →
      build.position place < source.contentEnd) →
    (source.table tag text position).1.length = text.length
  /-- The first place that is not in the content ends the table. -/
  stops : ∀ index place, source.Examines (keepsReferences tag) text 0 position index place →
    source.contentEnd ≤ build.position place →
      (source.table tag text position).1.length = index + 1
  examined : ∀ index place, source.Examines (keepsReferences tag) text 0 position index place →
    (source.table tag text position).1[index]? = some (place - position - index)
  first : (source.table tag text position).1 ≠ [] →
    (source.table tag text position).1.head? = some 0
  empty_iff : (source.table tag text position).1 = [] ↔ text = []
  added_le : (source.table tag text position).2 ≤ text.length

theorem tableFits (source : Source build) (tag : String) (text : List Char) (position : Int) :
    source.TableFits tag text position where
  length_le := source.length_corrections_le _ _ _ _ _
  length_eq hwithin := length_corrections hwithin 0
  stops _ _ hexamines hbehind := hexamines.length_eq hbehind 0
  examined index place hexamines := by
    have hentry := hexamines.entry 0
    rwa [Int.add_zero] at hentry
  first hgiven := by
    cases text with
    | nil => exact absurd rfl hgiven
    | cons c rest => exact source.head?_table tag c rest position
  empty_iff := by
    cases text with
    | nil => exact ⟨fun _ => rfl, fun _ => rfl⟩
    | cons c rest =>
        have hfirst := source.head?_table tag c rest position
        constructor
        · intro hempty
          rw [hempty] at hfirst
          cases hfirst
        · rintro ⟨⟩
  added_le := by
    have hbounded := source.corrections_total_le (keepsReferences tag) text 0 position 0
    rwa [Int.zero_add] at hbounded

/-- Where there is room for a text, its table is found in every build. -/
theorem table_of_room {tag : String} {text : List Char} {position : Int}
    (hroom : source.Room position text.length) :
    build.result? (source.tableSums tag text position) (source.table tag text position) =
      some (source.table tag text position) := by
  cases build with
  | checked => exact Build.result?_eq_some_iff.mpr ⟨fun _ => isSigned_tableSums hroom, rfl⟩
  | wrapping => rfl

/-- The second character is looked up behind the content, so the third has no entry. -/
example : (@Source.table .checked ⟨"abc".toList, 1⟩ "p" "abc".toList 0).1 = [0, 0] := by decide

end Source

namespace Mapper

variable {build : Build}

/-- Whether an equals sign follows the name of an attribute that begins at an assigned position,
    behind blanks at most. -/
def EqualsFollows (mapper : Mapper build) (attr : Attribute) (start : Int) : Prop :=
  let afterName := start + leadingBlanks (mapper.source.slice start 100) + attr.name.length
  let rest := mapper.source.slice afterName 50
  rest[leadingBlanks rest]? = some '='

/-- How many characters are written for an attribute. -/
def attributeLength (attr : Attribute) : Nat :=
  1 + attr.name.length + ((escapeAttribute attr.value.toList).length + 3)

variable {mapper : Mapper build} {tag : String} {attr : Attribute} {start : Int} {cursor : Cursor}

/-- However short the table of a value is, the corrections of the attribute are complete. -/
theorem length_valueOffsets (mapper : Mapper build) (tag : String) (escaped : List Char)
    (quoted : Bool) (beforeEquals beforeQuote position : Int) :
    (mapper.valueOffsets tag escaped quoted beforeEquals beforeQuote position).1.length =
      escaped.length + 3 := by
  have hshort := (mapper.source.tableFits tag escaped position).length_le
  simp only [valueOffsets, List.length_append, List.length_cons, List.length_map,
    List.length_replicate, List.length_nil]
  omega

theorem length_spelling_of_equals (tag : String) (hequals : mapper.EqualsFollows attr start) :
    (mapper.spelling tag attr start).valueOffsets.length =
      (escapeAttribute attr.value.toList).length + 3 := by
  simp only [EqualsFollows] at hequals
  simp only [spelling]
  rw [if_pos hequals]
  exact mapper.length_valueOffsets _ _ _ _ _ _

theorem length_spelling_of_bare (tag : String) (hbare : ¬ mapper.EqualsFollows attr start) :
    (mapper.spelling tag attr start).valueOffsets.length = 3 := by
  simp only [EqualsFollows] at hbare
  simp only [spelling]
  rw [if_neg hbare]
  rfl

/-- Where there is room for an attribute, it is read in every build. -/
theorem attributeSpans_of_room (id : NodeId) (tag : String)
    (hroom : mapper.source.Room cursor.assigned (attributeLength attr))
    (hcounted : cursor.extra + attributeLength attr < lengthLimit) :
    let report := (mapper.attributeSpans id tag attr cursor).2
    build.result? report.sums report = some report := by
  intro report
  cases build with
  | wrapping => rfl
  | checked =>
      refine Build.result?_eq_some_iff.mpr ⟨fun _ sum hmem => Origin.isSigned_iff.mpr ?_, rfl⟩
      obtain ⟨hleast, hmost⟩ := hroom
      rcases List.mem_append.mp hmem with hmem | hmem
      · obtain ⟨hlow, hhigh⟩ := mapper.spellingSums_bounds tag attr cursor.assigned sum hmem
        simp only [attributeLength] at hmost
        constructor <;> omega
      · obtain ⟨hle, hend⟩ := mapper.spelling_bounds tag attr cursor.assigned
        rw [List.mem_singleton.mp hmem]
        simp only [attributeLength] at hmost hcounted
        simp only [Cursor.assigned] at hle hend hmost hleast ⊢
        constructor <;> omega

end Mapper

/-- Whether an origin is one of a span of so many characters that has so many corrections. -/
def Origin.Corrects (origin : Origin) (length count : Nat) : Prop :=
  origin.length = UInt64.ofNat length ∧
    ∃ table, origin.offsets = some table ∧ table.length = count

variable {build : Build}

theorem Mapper.corrects_origin (mapper : Mapper build) (target : Target) (action : Action)
    (start length : Nat) (extra : Int) (table : List Int) :
    (mapper.origin target action start length extra (some table)).origin.Corrects length
      table.length :=
  ⟨rfl, table.map Int64.ofInt, rfl, List.length_map _⟩

/-- Tables fit their spans in every build, whatever is assigned and wherever the walk stands. The
    name of an attribute has a correction for each of its characters, and so has the value with its
    marks, unless there is a value but no equals sign; then there are three. There is no table only
    if the build checks its sums and one of them leaves its word: for a text that of the position,
    or one of those for a character that is looked up. That cannot be where there is room for
    it. -/
theorem tables_fit_spans (source : Source build) (tag : String) (text : List Char)
    (cursor : Cursor) (adjustment : Int) (mapper : Mapper build) (id : NodeId) (attr : Attribute) :
    let position := cursor.assigned + adjustment
    let sums := cursor.assigned :: source.tableSums tag text position
    let report := (mapper.attributeSpans id tag attr cursor).2
    (build.result? sums (source.table tag text position) = none ↔
      build = .checked ∧ ¬ (Origin.isSigned cursor.assigned = true ∧
        Origin.isSigned position = true ∧
          ∀ index place, source.Examines (keepsReferences tag) text 0 position index place →
            Origin.isSigned (position + index) = true ∧ Origin.isSigned place = true)) ∧
    (Origin.isSigned cursor.assigned = true → source.Room position text.length →
      build.result? sums (source.table tag text position) =
        some (source.table tag text position)) ∧
    source.TableFits tag text position ∧
    (build.result? report.sums report = none ↔ build = .checked ∧ report.overflows = true) ∧
    (mapper.source.Room cursor.assigned (Mapper.attributeLength attr) →
      cursor.extra + Mapper.attributeLength attr < lengthLimit →
        build.result? report.sums report = some report) ∧
    ∃ name value, report.origins = [name, value] ∧
      name.origin.action = .attributeName ∧ value.origin.action = .attributeValue ∧
      name.origin.Corrects (1 + attr.name.length) (1 + attr.name.length) ∧
      (attr.value = "" ∨ mapper.EqualsFollows attr cursor.assigned →
        value.origin.Corrects ((escapeAttribute attr.value.toList).length + 3)
          ((escapeAttribute attr.value.toList).length + 3)) ∧
      (attr.value ≠ "" → ¬ mapper.EqualsFollows attr cursor.assigned →
        value.origin.Corrects ((escapeAttribute attr.value.toList).length + 3) 3) := by
  intro position sums report
  refine ⟨?_, fun hsigned hroom => ?_, source.tableFits tag text position,
    report.result?_eq_none_iff, Mapper.attributeSpans_of_room id tag, _, _, rfl, rfl, rfl, ?_⟩
  · have hsigned : (∀ sum ∈ sums, Origin.isSigned sum = true) ↔ _ :=
      List.forall_mem_cons.trans (and_congr_right fun _ => Source.isSigned_tableSums_iff)
    rw [Build.result?_eq_none_iff, ← hsigned]
  · obtain ⟨hfits, -⟩ := Build.result?_eq_some_iff.mp (source.table_of_room hroom)
    exact Build.result?_eq_some_iff.mpr
      ⟨fun hchecked => List.forall_mem_cons.mpr ⟨hsigned, hfits hchecked⟩, rfl⟩
  refine ⟨?_, ?_, ?_⟩
  · have hcorrects := mapper.corrects_origin (.attribute id attr.name) .attributeName cursor.written
      (1 + attr.name.length) cursor.extra
      (List.replicate (1 + attr.name.length) (mapper.spelling tag attr cursor.assigned).nameOffset)
    rwa [List.length_replicate] at hcorrects
  all_goals
    have hcorrects := mapper.corrects_origin (.attribute id attr.name) .attributeValue
      (cursor.written + (1 + attr.name.length)) ((escapeAttribute attr.value.toList).length + 3)
      cursor.extra (mapper.spelling tag attr cursor.assigned).valueOffsets
  · intro hcomplete
    have hall : (mapper.spelling tag attr cursor.assigned).valueOffsets.length =
        (escapeAttribute attr.value.toList).length + 3 := by
      by_cases hequals : mapper.EqualsFollows attr cursor.assigned
      · exact Mapper.length_spelling_of_equals tag hequals
      · rw [Mapper.length_spelling_of_bare tag hequals, hcomplete.resolve_right hequals]
        rfl
    rwa [hall] at hcorrects
  · intro _ hbare
    rwa [Mapper.length_spelling_of_bare tag hbare] at hcorrects

end Provenance.Markup
