import Provenance.Markup.Mapper
import Provenance.Proofs.Markup.Correction

/-! # The spelling of attributes on any input

What the mapper makes of an attribute, whatever stands in the assigned string at its place.
-/

namespace Provenance.Markup

open Provenance.Text (leadingBlanks leadingBlanks_le)

namespace Mapper

variable {mapper : Mapper .checked}

/-- Blanks that are counted are there. -/
theorem add_leadingBlanks_le (mapper : Mapper .checked) (position : Int) (count : Nat) :
    leadingBlanks (mapper.source.slice position count) = 0 ∨
      position + leadingBlanks (mapper.source.slice position count) ≤
        mapper.source.chars.length := by
  rcases Nat.eq_zero_or_pos (leadingBlanks (mapper.source.slice position count)) with hzero | hpos
  · exact .inl hzero
  · exact .inr (Source.add_le_of_slice hpos (leadingBlanks_le _)).2

theorem valueOffsets_total (mapper : Mapper .checked) (tag : String) (escaped : List Char)
    (quoted : Bool) (beforeEquals beforeQuote position : Int) :
    (mapper.valueOffsets tag escaped quoted beforeEquals beforeQuote position).2 =
      beforeQuote + (mapper.source.table tag escaped position).2 + if quoted then 0 else 2 := by
  cases quoted with
  | true => exact (Int.add_zero _).symm
  | false =>
      simp only [valueOffsets, Bool.false_eq_true, if_false]
      omega

theorem valueOffsets_bounds (mapper : Mapper .checked) (tag : String) (escaped : List Char)
    (quoted : Bool) (beforeEquals beforeQuote position : Int) :
    let total := (mapper.valueOffsets tag escaped quoted beforeEquals beforeQuote position).2
    let marks : Int := if quoted then 0 else 2
    total ≤ beforeQuote + marks + escaped.length ∧
      position + beforeQuote + marks ≤ max position mapper.source.chars.length + total := by
  obtain ⟨hle, hend⟩ := mapper.source.corrections_bounds (keepsReferences tag) escaped 0 position 0
  simp only [valueOffsets_total, Source.table]
  split
  · omega
  · omega

/-- The corrections of a value up to where its table ends. -/
theorem valueOffsets_entry {tag : String} {escaped : List Char} {position offset : Int} {k : Nat}
    (hentry : (mapper.source.table tag escaped position).1[k]? = some offset) (quoted : Bool)
    (beforeEquals beforeQuote : Int) :
    let opened := if quoted then beforeQuote else beforeQuote + 1
    let offsets := (mapper.valueOffsets tag escaped quoted beforeEquals beforeQuote position).1
    offsets[0]? = some (-beforeEquals) ∧ offsets[1]? = some (-opened) ∧
      offsets[k + 2]? = some (offset - opened) := by
  obtain ⟨hlt, -⟩ := List.getElem?_eq_some_iff.mp hentry
  refine ⟨rfl, rfl, ?_⟩
  simp only [valueOffsets, List.cons_append, List.getElem?_cons_succ, List.map_append,
    List.append_assoc]
  rw [List.getElem?_append_left (by simpa using hlt), List.getElem?_map, hentry, Option.map_some]

/-- The corrections of a value whose table is complete: the equals sign, the opening quote, the
    value, and the closing quote, which is corrected like what comes before it. -/
theorem valueOffsets_entries {tag : String} {escaped : List Char} {position : Int}
    (quoted : Bool) (beforeEquals beforeQuote : Int)
    (hlength : (mapper.source.table tag escaped position).1.length = escaped.length) :
    let opened := if quoted then beforeQuote else beforeQuote + 1
    let offsets := (mapper.valueOffsets tag escaped quoted beforeEquals beforeQuote position).1
    offsets.length = escaped.length + 3 ∧ offsets[0]? = some (-beforeEquals) ∧
      offsets[1]? = some (-opened) ∧
      (∀ k < escaped.length, offsets[k + 2]? =
        (mapper.source.table tag escaped position).1[k]?.map (· - opened)) ∧
      offsets[escaped.length + 2]? = offsets[escaped.length + 1]? := by
  intro opened offsets
  let table := (mapper.source.table tag escaped position).1
  let front := -beforeEquals :: -opened :: table.map (· - opened)
  have hfront : front.length = escaped.length + 2 := by
    simp only [front, List.length_cons, List.length_map, table, hlength]
  have hoffsets : offsets = front ++ [front.getLast?.getD 0] := by
    simp only [offsets, valueOffsets, hlength, Nat.sub_self, List.replicate_zero, List.append_nil]
    rfl
  have hinside : ∀ k < escaped.length + 2, offsets[k]? = front[k]? := fun k hlt => by
    rw [hoffsets, List.getElem?_append_left (by omega)]
  refine ⟨?_, hinside 0 (by omega), hinside 1 (by omega), fun k hlt => ?_, ?_⟩
  · rw [hoffsets, List.length_append, hfront, List.length_singleton]
  · rw [hinside (k + 2) (by omega)]
    exact List.getElem?_map
  · have hlast : front.getLast? = front[escaped.length + 1]? := by
      rw [List.getLast?_eq_getElem?, hfront]
      rfl
    rw [hinside (escaped.length + 1) (by omega), hoffsets, List.getElem?_append_right (by omega),
      hlast]
    have hthere := List.getElem?_eq_getElem (show escaped.length + 1 < front.length by omega)
    simp only [hfront, Nat.sub_self, List.getElem?_cons_zero, hthere, Option.getD_some]

/-- The quotes and the value lead to the value and its quotes. Only the closing quote may lead to
    the character after the value. -/
theorem valueOffsets_confined {tag : String} {escaped : List Char} {position : Int}
    (quoted : Bool) (beforeEquals beforeQuote : Int)
    (hend : position + escaped.length - (mapper.source.table tag escaped position).2 ≤
      mapper.source.contentEnd) :
    let opened := if quoted then beforeQuote else beforeQuote + 1
    let offsets := (mapper.valueOffsets tag escaped quoted beforeEquals beforeQuote position).1
    offsets.length = escaped.length + 3 ∧ offsets[0]? = some (-beforeEquals) ∧
      ∀ (k : Nat) (offset : Int), offsets[k + 1]? = some offset →
        position ≤ position + k + offset + opened ∧
          position + k + offset + opened ≤
            position + escaped.length + 1 - (mapper.source.table tag escaped position).2 := by
  intro opened offsets
  obtain ⟨hlength, hentries⟩ := mapper.source.table_confined tag hend
  obtain ⟨hoffsets, hequals, hopening, hvalue, hclosing⟩ :=
    valueOffsets_entries quoted beforeEquals beforeQuote hlength
  have hadded := (mapper.source.corrections_bounds (keepsReferences tag) escaped 0 position 0).1
  rw [← Source.table, Int.zero_add] at hadded
  refine ⟨hoffsets, hequals, ?_⟩
  -- Up to the last character of the value; the closing quote is corrected like that.
  have hfront : ∀ k ≤ escaped.length, ∀ offset, offsets[k + 1]? = some offset →
      position ≤ position + k + offset + opened ∧ position + k + offset + opened ≤
        position + escaped.length - (mapper.source.table tag escaped position).2 := by
    intro k hk offset hoffset
    cases k with
    | zero =>
        have hoffset : -opened = offset := Option.some.inj (hopening.symm.trans hoffset)
        omega
    | succ k =>
        rw [hvalue k hk] at hoffset
        obtain ⟨entry, hentry, rfl⟩ := Option.map_eq_some_iff.mp hoffset
        obtain ⟨hlow, hhigh⟩ := hentries k entry hentry
        omega
  intro k offset hoffset
  have hk : k + 1 < escaped.length + 3 := hoffsets ▸ (List.getElem?_eq_some_iff.mp hoffset).1
  rcases Nat.lt_or_eq_of_le (show k ≤ escaped.length + 1 by omega) with hlt | rfl
  · obtain ⟨hlow, hhigh⟩ := hfront k (Nat.le_of_lt_succ hlt) offset hoffset
    exact ⟨hlow, by omega⟩
  · rw [hclosing] at hoffset
    obtain ⟨hlow, hhigh⟩ := hfront escaped.length (Nat.le_refl _) offset hoffset
    omega

/-- What the assigned string can tell about an attribute: how many blanks come before it, and
    whether a value follows. -/
theorem spelling_cases (mapper : Mapper .checked) (tag : String) (attr : Attribute) (start : Int) :
    ∃ (blanks : Nat) (added : Int),
      (blanks = 0 ∧ added = 0 ∧ (mapper.spelling tag attr start).mismatches ≠ [] ∨
        0 < blanks ∧ added = 1 - blanks ∧ start + blanks ≤ mapper.source.chars.length) ∧
      (mapper.spelling tag attr start).nameOffset = -added ∧
      ((mapper.spelling tag attr start).valueOffsets =
          [-(added + 1), -(added + 2), -(added + 3)] ∧
        (mapper.spelling tag attr start).added = added + 3 ∧
        ((mapper.spelling tag attr start).mismatches = [] → attr.value = "") ∨
      ∃ (before after : Nat) (quoted : Bool),
        (before = 0 ∨ start + blanks + attr.name.length + before ≤ mapper.source.chars.length) ∧
        (after = 0 ∨ start + blanks + attr.name.length + before + 1 + after ≤
          mapper.source.chars.length) ∧
        ((mapper.spelling tag attr start).valueOffsets, (mapper.spelling tag attr start).added) =
          mapper.valueOffsets tag (escapeAttribute attr.value.toList) quoted (added - before)
            (added - before - after) (start + blanks + attr.name.length + before + 1 + after +
              if quoted then 1 else 0)) := by
  let blanks := leadingBlanks (mapper.source.slice start 100)
  let added : Int := if blanks = 0 then 0 else 1 - blanks
  have hblanks : blanks = 0 ∨ start + blanks ≤ mapper.source.chars.length :=
    add_leadingBlanks_le mapper start 100
  refine ⟨blanks, added, ?_, ?_, ?_⟩
  · by_cases hzero : blanks = 0
    · refine .inl ⟨hzero, if_pos hzero, ?_⟩
      simp only [blanks] at hzero
      simp only [spelling, hzero, if_true]
      split <;> simp only [List.singleton_append, ne_eq, reduceCtorEq, not_false_eq_true]
    · exact .inr ⟨Nat.pos_of_ne_zero hzero, if_neg hzero, hblanks.resolve_left hzero⟩
  · simp only [spelling]
    split
    · rfl
    · rfl
  · let afterName : Int := start + blanks + attr.name.length
    let before := leadingBlanks (mapper.source.slice afterName 50)
    by_cases hequals : (mapper.source.slice afterName 50)[before]? = some '='
    · let afterEquals := mapper.source.slice (afterName + before + 1) 50
      let after := leadingBlanks afterEquals
      let quoted : Bool := afterEquals[after]? = some '"' || afterEquals[after]? = some '\''
      refine .inr ⟨before, after, quoted, add_leadingBlanks_le mapper _ 50,
        add_leadingBlanks_le mapper _ 50, ?_⟩
      simp only [spelling]
      rw [if_pos hequals]
    · refine .inl ?_
      simp only [spelling]
      rw [if_neg hequals]
      refine ⟨rfl, rfl, fun hnone => ?_⟩
      have hvalue := (List.append_eq_nil_iff.mp hnone).2
      by_cases hempty : attr.value.isEmpty = true
      · exact String.isEmpty_iff.mp hempty
      · rw [if_neg hempty] at hvalue
        cases hvalue

/-- An attribute is passed over, however it is spelled: no more is added for it than its value and
    the marks around that, and no more is dropped than is there. -/
theorem spelling_bounds (mapper : Mapper .checked) (tag : String) (attr : Attribute) (start : Int) :
    let added := (mapper.spelling tag attr start).added
    added ≤ (escapeAttribute attr.value.toList).length + 3 ∧
      start ≤ max start mapper.source.chars.length + added := by
  obtain ⟨blanks, added, hblanks, -, hvalue⟩ := mapper.spelling_cases tag attr start
  rcases hvalue with ⟨-, hadded, -⟩ | ⟨before, after, quoted, hbefore, hafter, hvalue⟩
  · simp only [hadded]
    omega
  · have hbounds := mapper.valueOffsets_bounds tag (escapeAttribute attr.value.toList) quoted
      (added - before) (added - before - after) (start + blanks + attr.name.length + before + 1 +
        after + if quoted then 1 else 0)
    simp only [← hvalue] at hbounds
    cases quoted with
    | true =>
        simp only [if_true] at hbounds
        omega
    | false =>
        simp only [Bool.false_eq_true, if_false] at hbounds
        omega

/-- A character of a slice is there. -/
theorem add_lt_of_slice {position : Int} {count k : Nat} {c : Char}
    (h : (mapper.source.slice position count)[k]? = some c) :
    0 ≤ position ∧ position + k < mapper.source.chars.length := by
  obtain ⟨hlt, -⟩ := List.getElem?_eq_some_iff.mp h
  obtain ⟨hpos, hle⟩ := Source.add_le_of_slice (Nat.succ_pos k) hlt
  omega

/-- The positions that are summed up for an attribute lie where it begins or behind, and behind the
    end of the assigned string by no more than what is written of it. -/
theorem spellingSums_bounds (mapper : Mapper .checked) (tag : String) (attr : Attribute)
    (start : Int) : ∀ sum ∈ mapper.spellingSums tag attr start, min start 0 ≤ sum ∧
      sum ≤ max start mapper.source.chars.length +
        (1 + attr.name.length + ((escapeAttribute attr.value.toList).length + 3)) := by
  obtain ⟨blanks, hcount⟩ : ∃ blanks,
    leadingBlanks (mapper.source.slice start 100) = blanks := ⟨_, rfl⟩
  have hblanks : blanks = 0 ∨ 0 ≤ start ∧ start + blanks ≤ mapper.source.chars.length := by
    rw [← hcount]
    rcases Nat.eq_zero_or_pos (leadingBlanks (mapper.source.slice start 100)) with hzero | hpos
    · exact .inl hzero
    · exact .inr (Source.add_le_of_slice hpos (leadingBlanks_le _))
  obtain ⟨afterName, hname⟩ : ∃ afterName : Int,
    start + blanks + attr.name.length = afterName := ⟨_, rfl⟩
  obtain ⟨before, hbefore⟩ : ∃ before,
    leadingBlanks (mapper.source.slice afterName 50) = before := ⟨_, rfl⟩
  simp only [spellingSums, hcount, hname, hbefore]
  by_cases hequals : (mapper.source.slice afterName 50)[before]? = some '='
  · obtain ⟨hpos, hthere⟩ := add_lt_of_slice hequals
    have hthereAfter := mapper.add_leadingBlanks_le (afterName + before + 1) 50
    have hmarked := @add_lt_of_slice mapper (afterName + before + 1) 50
    obtain ⟨rest, hrest⟩ : ∃ rest, mapper.source.slice (afterName + before + 1) 50 = rest :=
      ⟨_, rfl⟩
    rw [hrest] at hthereAfter hmarked
    obtain ⟨after, hafter⟩ : ∃ after, leadingBlanks rest = after := ⟨_, rfl⟩
    rw [hafter] at hthereAfter
    obtain ⟨quote, hquote⟩ : ∃ quote : Int, (if decide (rest[after]? = some '"') ||
      decide (rest[after]? = some '\'') then 1 else 0) = quote := ⟨_, rfl⟩
    have hvalue : 0 ≤ quote ∧ afterName + before + 1 + after + quote ≤
        mapper.source.chars.length := by
      rw [← hquote]
      split
      · rename_i hmark
        simp only [Bool.or_eq_true, decide_eq_true_eq] at hmark
        have hplace : ∃ c, rest[after]? = some c := hmark.elim (⟨_, ·⟩) (⟨_, ·⟩)
        obtain ⟨c, hchar⟩ := hplace
        have hinside := hmarked hchar
        omega
      · omega
    rw [if_pos hequals]
    simp only [hrest, hafter, hquote]
    intro sum hmem
    rcases List.mem_append.mp hmem with hmem | hmem
    · simp only [List.cons_append, List.nil_append, List.mem_cons, List.not_mem_nil,
        or_false] at hmem
      omega
    · obtain ⟨hlow, hhigh⟩ := mapper.source.tableSums_bounds tag _ _ sum hmem
      omega
  · rw [if_neg hequals]
    intro sum hmem
    simp only [List.mem_cons, List.not_mem_nil, or_false] at hmem
    omega

/-- The characters of an attribute that is spelled without a mismatch lead to what it was assigned
    as. Only the closing quote may lead to the character after it. -/
theorem spelling_confined {tag : String} {attr : Attribute} {start : Int}
    (hclean : (mapper.spelling tag attr start).mismatches = [])
    (hend : start + (1 + attr.name.length + ((escapeAttribute attr.value.toList).length + 3)) -
      (mapper.spelling tag attr start).added ≤ mapper.source.contentEnd) :
    let spelling := mapper.spelling tag attr start
    let stop := start + (1 + attr.name.length + ((escapeAttribute attr.value.toList).length + 3)) -
      spelling.added
    start ≤ start + spelling.nameOffset ∧ start + attr.name.length + spelling.nameOffset < stop ∧
      spelling.valueOffsets.length = (escapeAttribute attr.value.toList).length + 3 ∧
      ∀ (k : Nat) (offset : Int), spelling.valueOffsets[k]? = some offset →
        start ≤ start + (1 + attr.name.length + k) + offset ∧
          start + (1 + attr.name.length + k) + offset ≤ stop := by
  intro spelling stop
  obtain ⟨blanks, added, hblanks, hname, hvalue⟩ := mapper.spelling_cases tag attr start
  have hadded : added = 1 - blanks ∧ 0 < blanks := by
    rcases hblanks with ⟨-, -, hmismatch⟩ | ⟨hpos, heq, -⟩
    · exact absurd hclean hmismatch
    · exact ⟨heq, hpos⟩
  simp only [spelling, stop, hname]
  rcases hvalue with ⟨hoffsets, htotal, hempty⟩ | ⟨before, after, quoted, -, -, hvalue⟩
  · have hlength : (escapeAttribute attr.value.toList).length = 0 := by
      rw [hempty hclean]
      rfl
    rw [hoffsets, htotal]
    refine ⟨by omega, by omega, by rw [hlength]; rfl, fun k offset hget => ?_⟩
    match k, hget with
    | 0, hget => have hoffset : -(added + 1) = offset := Option.some.inj hget; omega
    | 1, hget => have hoffset : -(added + 2) = offset := Option.some.inj hget; omega
    | 2, hget => have hoffset : -(added + 3) = offset := Option.some.inj hget; omega
  · obtain ⟨escaped, hescaped⟩ : ∃ escaped, escapeAttribute attr.value.toList = escaped :=
      ⟨_, rfl⟩
    obtain ⟨position, hposition⟩ : ∃ position : Int, start + blanks + attr.name.length + before +
      1 + after + (if quoted then 1 else 0) = position := ⟨_, rfl⟩
    rw [hescaped, hposition] at hvalue
    rw [hescaped] at hend ⊢
    have hoffsets : (mapper.spelling tag attr start).valueOffsets = (mapper.valueOffsets tag
        escaped quoted (added - before) (added - before - after) position).1 :=
      congrArg Prod.fst hvalue
    have htotal : (mapper.spelling tag attr start).added = added - before - after +
        (mapper.source.table tag escaped position).2 + if quoted then 0 else 2 :=
      (congrArg Prod.snd hvalue).trans (mapper.valueOffsets_total ..)
    have hstop : start + (1 + attr.name.length + (escaped.length + 3)) -
        (mapper.spelling tag attr start).added = position + escaped.length -
          (mapper.source.table tag escaped position).2 + if quoted then 1 else 0 := by
      rw [htotal, ← hposition]
      split
      · omega
      · omega
    have htable := (mapper.source.corrections_bounds (keepsReferences tag) escaped 0 position 0).1
    rw [← Source.table, Int.zero_add] at htable
    rw [hstop] at hend ⊢
    have hvalueEnd : position + escaped.length -
        (mapper.source.table tag escaped position).2 ≤ mapper.source.contentEnd := by
      split at hend
      · omega
      · omega
    obtain ⟨hlength, hequals, hentries⟩ :=
      valueOffsets_confined quoted (added - before) (added - before - after) hvalueEnd
    rw [← hoffsets] at hlength hequals hentries
    have hequalsSign : start + blanks + attr.name.length + before + 1 ≤ position := by
      split at hposition
      · omega
      · omega
    have hmark : (0 : Int) ≤ if quoted then 1 else 0 := by
      split
      · exact Int.one_nonneg
      · exact Int.le_refl 0
    refine ⟨by omega, by omega, hlength, fun k offset hget => ?_⟩
    cases k with
    | zero =>
        have hoffset : -(added - before) = offset := Option.some.inj (hequals.symm.trans hget)
        omega
    | succ k =>
        have hentry := hentries k offset hget
        cases quoted with
        | true =>
            simp only [if_true] at hentry hposition ⊢
            omega
        | false =>
            simp only [Bool.false_eq_true, if_false] at hentry hposition ⊢
            omega

end Mapper

end Provenance.Markup
