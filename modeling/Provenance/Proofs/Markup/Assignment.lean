import Provenance.Markup.Assignment
import Provenance.Proofs.Markup.AttributeSource
import Provenance.Proofs.Markup.Leads

/-! # Direct assignments led back

A text content, an attribute or a style declaration that is assigned directly is only escaped. The
span of it lists an assigned index for every written character, so looking one up undoes the
escaping. The marks that are written around the name and the value of an attribute lead into these.
The delimiter behind a style declaration does not: it leads to the place behind the last character.
-/

namespace Provenance.Markup

/-! ## Listed indices -/

/-- Whether a span covers the indices from one up to another and no others. -/
def Origin.Occupies (origin : Origin) (first stop : Nat) : Prop :=
  ∀ index, origin.covers index = true ↔ first ≤ index ∧ index < stop

section Listed

variable {action : Action} {tracking : Option RecordId} {start : UInt64} {targets : List Nat}
  {value : String} {origins : List Origin} {index k target : Nat}

theorem occupies_ofTargets {first stop : Nat}
    (hfits : start.toNat + targets.length < UInt64.size) (hfirst : start.toNat = first)
    (hstop : first + targets.length = stop) :
    (Origin.ofTargets action tracking start targets value).Occupies first stop := by
  subst hfirst hstop
  have hlength : (UInt64.ofNat targets.length).toNat = targets.length :=
    UInt64.toNat_ofNat_of_lt' (by omega)
  intro index
  constructor
  · intro hcovers
    have hinside := Mapping.lt_of_covers hcovers
    simpa only [Origin.ofTargets, hlength] using hinside
  · rintro ⟨hfirst, hlast⟩
    apply Mapping.covers_of_lt
    · simpa only [Origin.ofTargets, hlength] using hfits
    · exact hfirst
    · simpa only [Origin.ofTargets, hlength] using hlast

/-- The start of the span cancels out, and so does the place in it. -/
theorem assignedIndex_ofTargets (hentry : targets[k]? = some target)
    (hlimit : target < lengthLimit) :
    (Origin.ofTargets action tracking start targets value).assignedIndex (start.toNat + k) =
      some target := by
  have hoffset : (Origin.ofTargets action tracking start targets value).offsetAt k =
      Int64.ofInt ((target : Int) - k) := by
    simp [Origin.offsetAt, Origin.ofTargets, List.getElem?_zipIdx, hentry]
  have hword : start.toInt64 - start.toInt64 + Int64.ofNat k + Int64.ofInt ((target : Int) - k) =
      Int64.ofInt target := by
    rw [Int64.ofInt_sub, Int64.ofInt_eq_ofNat, Int64.ofInt_eq_ofNat]
    grind
  calc (Origin.ofTargets action tracking start targets value).assignedIndex (start.toNat + k)
      = (let word := start.toInt64 - start.toInt64 + Int64.ofNat k +
            (Origin.ofTargets action tracking start targets value).offsetAt k
          if word < 0 then none else some word.toNatClampNeg) :=
        Origin.assignedIndex_add _ k
    _ = some target := by
        rw [hoffset, hword]
        exact Mapper.place_of_word (Int.natCast_nonneg target) (Int.ofNat_lt.mpr hlimit)

/-- Among spans that follow each other, a lookup leads to the listed index. -/
theorem originAt_ofTargets (hbefore : origins.Pairwise Origin.Before)
    (hmem : Origin.ofTargets action tracking start targets value ∈ origins)
    (hfits : start.toNat + targets.length < UInt64.size) (hentry : targets[k]? = some target)
    (hlimit : target < lengthLimit) :
    (Mapping.ofOrigins origins).originAt (start.toNat + k) =
      some ⟨.ofTargets action tracking start targets value, target⟩ := by
  have hlt : k < targets.length := (List.getElem?_eq_some_iff.mp hentry).1
  have hcovers : (Origin.ofTargets action tracking start targets value).covers
      (start.toNat + k) = true :=
    (occupies_ofTargets hfits rfl rfl _).mpr ⟨Nat.le_add_right _ _, Nat.add_lt_add_left hlt _⟩
  rw [Mapping.originAt_of_covers hbefore hmem hcovers, assignedIndex_ofTargets hentry hlimit]
  rfl

end Listed

/-! ## The characters of an escaped text -/

section Escaped

variable {escape : Char → List Char} {front back text : List Char} {c : Char}
  {first k target : Nat}

theorem escapedTargets_append (escape : Char → List Char) (front back : List Char) (first : Nat) :
    escapedTargets escape (front ++ back) first =
      escapedTargets escape front first ++ escapedTargets escape back (first + front.length) := by
  induction front generalizing first with
  | nil => rfl
  | cons c front ih =>
      have hnext : first + 1 + front.length = first + (c :: front).length := by
        rw [List.length_cons]
        omega
      simp only [List.cons_append, escapedTargets, ih, List.append_assoc, hnext]

theorem length_escapedTargets (escape : Char → List Char) (text : List Char) (first : Nat) :
    (escapedTargets escape text first).length = (text.flatMap escape).length := by
  induction text generalizing first with
  | nil => rfl
  | cons c text ih =>
      simp only [escapedTargets, List.flatMap_cons, List.length_append, List.length_replicate, ih]

theorem lt_of_mem_escapedTargets (hmem : target ∈ escapedTargets escape text first) :
    target < first + text.length := by
  induction text generalizing first with
  | nil => cases hmem
  | cons c text ih =>
      rw [List.length_cons]
      rcases List.mem_append.mp hmem with hmem | hmem
      · rw [List.eq_of_mem_replicate hmem]
        omega
      · have hlt := ih hmem
        omega

theorem getElem?_escapedTargets (front back : List Char) (first : Nat)
    (hlt : k < (escape c).length) :
    (escapedTargets escape (front ++ c :: back) first)[(front.flatMap escape).length + k]? =
      some (first + front.length) := by
  rw [escapedTargets_append, ← length_escapedTargets escape front first,
    List.getElem?_append_right (Nat.le_add_right _ _), Nat.add_sub_cancel_left, escapedTargets,
    List.getElem?_append_left (by rwa [List.length_replicate]), List.getElem?_replicate_of_lt hlt]

/-- No character is written as nothing, so an escaped text is at least as long. -/
theorem length_le_flatMap (hescape : ∀ c, escape c ≠ []) (text : List Char) :
    text.length ≤ (text.flatMap escape).length := by
  induction text with
  | nil => exact Nat.le_refl 0
  | cons c text ih =>
      have hpos := List.length_pos_iff.mpr (hescape c)
      rw [List.flatMap_cons, List.length_append, List.length_cons]
      omega

theorem escapeText_ne_nil (tag : String) (c : Char) : escapeText tag [c] ≠ [] := by
  unfold escapeText
  split
  · exact List.cons_ne_nil _ _
  · rw [List.flatMap_singleton]
    exact escaping_text.ne_nil c

theorem escapedTargets_plain (text : List Char) (first : Nat) :
    escapedTargets (fun c => [c]) text first = List.range' first text.length := by
  induction text generalizing first with
  | nil => rfl
  | cons c text ih => simp [escapedTargets, ih, List.range'_succ]

end Escaped

/-! ## What lookups undo -/

/-- Whether looking up the characters of an escaped text, which is written from a start on, undoes
    the escaping: every character is part of what is written for one character of the text, and
    leads through the span to that one. -/
def Mapping.Undoes (mapping : Mapping) (span : Origin) (escape : List Char → List Char)
    (text : List Char) (start : Nat) : Prop :=
  ∀ front c back, text = front ++ c :: back →
    escape text = escape front ++ (escape [c] ++ escape back) ∧
      ∀ k < (escape [c]).length, mapping.originAt (start + (escape front).length + k) =
        some ⟨span, front.length⟩

/-- Whether a text can be written from a start on: it is no longer than strings are, and its end is
    a word. -/
structure Fits (start : UInt64) (written : List Char) : Prop where
  length : written.length < lengthLimit
  stop : start.toNat + written.length < UInt64.size

section Undone

variable {action : Action} {tracking : Option RecordId} {start : UInt64} {value : String}
  {origins : List Origin} {targets lead trail : List Nat} {escape : Char → List Char}
  {written : List Char → List Char} {text : List Char} {first : Nat}

theorem undoes_ofTargets (hwritten : ∀ text, written text = text.flatMap escape)
    (htargets : targets = lead ++ escapedTargets escape text 0 ++ trail)
    (hbefore : origins.Pairwise Origin.Before)
    (hmem : Origin.ofTargets action tracking start targets value ∈ origins)
    (hfits : start.toNat + targets.length < UInt64.size) (htext : text.length < lengthLimit)
    (hfirst : first = start.toNat + lead.length) :
    (Mapping.ofOrigins origins).Undoes (.ofTargets action tracking start targets value) written
      text first := by
  rintro front c back rfl
  have hone : written [c] = escape c := by rw [hwritten, List.flatMap_singleton]
  constructor
  · rw [hone, hwritten, hwritten, hwritten, List.flatMap_append, List.flatMap_cons]
  · intro k hlt
    rw [hone] at hlt
    have hentry := getElem?_escapedTargets front back 0 hlt
    have hthere := (List.getElem?_eq_some_iff.mp hentry).1
    have htarget : targets[lead.length + ((written front).length + k)]? = some front.length := by
      rw [htargets, List.append_assoc, List.getElem?_append_right (Nat.le_add_right _ _),
        Nat.add_sub_cancel_left, hwritten, List.getElem?_append_left hthere, hentry, Nat.zero_add]
    have hplace : first + (written front).length + k =
        start.toNat + (lead.length + ((written front).length + k)) := by omega
    rw [List.length_append] at htext
    rw [hplace]
    exact originAt_ofTargets hbefore hmem hfits htarget (by omega)

end Undone

/-! ## The spans of the assignments -/

theorem nameTargets_eq (name : List Char) :
    nameTargets name.length = [0] ++ escapedTargets (fun c => [c]) name 0 ++ [] := by
  rw [escapedTargets_plain, nameTargets, List.range_eq_range', List.append_nil]
  rfl

theorem length_valueTargets (value : List Char) :
    (valueTargets value).length = 2 + (escapeAttribute value).length + 1 := by
  simp only [valueTargets, List.length_append, length_escapedTargets, List.length_cons,
    List.length_nil, escapeAttribute]

theorem length_attributeHtml (name value : String) :
    (attributeHtml ⟨name, value⟩).length =
      1 + name.length + (2 + (escapeAttribute value.toList).length + 1) := by
  simp only [attributeHtml, List.length_append, List.length_cons, List.length_nil,
    String.length_toList]
  omega

theorem length_nameTargets (length : Nat) : (nameTargets length).length = 1 + length := by
  rw [nameTargets, List.length_cons, List.length_range, Nat.add_comm]

section Spans

variable {start : UInt64} {tag name value text : String}

theorem Fits.textSpan (h : Fits start (escapeText tag text.toList)) :
    start.toNat + (escapedTargets (fun c => escapeText tag [c]) text.toList 0).length <
      UInt64.size ∧ text.length < lengthLimit := by
  obtain ⟨hlength, hstop⟩ := h
  have hle := length_le_flatMap (escapeText_ne_nil tag) text.toList
  rw [escapeText_eq_flatMap] at hlength hstop
  rw [String.length_toList] at hle
  rw [length_escapedTargets]
  exact ⟨hstop, Nat.lt_of_le_of_lt hle hlength⟩

theorem Fits.styleSpan (h : Fits start (escapeAttribute text.toList ++ [';'])) :
    start.toNat + (escapedTargets escapeAttributeChar text.toList 0 ++ [text.length]).length <
      UInt64.size ∧ text.length < lengthLimit := by
  obtain ⟨hlength, hstop⟩ := h
  have hle := length_le_flatMap escaping_attribute.ne_nil text.toList
  rw [String.length_toList, ← escapeAttribute] at hle
  rw [List.length_append, List.length_singleton] at hlength hstop
  rw [List.length_append, length_escapedTargets, List.length_singleton, ← escapeAttribute]
  exact ⟨hstop, by omega⟩

/-- The parts of an attribute: the value is written right behind the name. -/
structure AttributeFits (start : UInt64) (name value : String) : Prop where
  nameStop : start.toNat + (nameTargets name.length).length < UInt64.size
  valueStart : (start + 1 + UInt64.ofNat name.length).toNat = start.toNat + (1 + name.length)
  valueStop : (start + 1 + UInt64.ofNat name.length).toNat + (valueTargets value.toList).length <
    UInt64.size
  nameLength : name.length < lengthLimit
  valueLength : value.length < lengthLimit

theorem Fits.attributeSpans (h : Fits start (attributeHtml ⟨name, value⟩)) :
    AttributeFits start name value := by
  obtain ⟨hlength, hstop⟩ := h
  rw [length_attributeHtml] at hlength hstop
  have hle := length_le_flatMap escaping_attribute.ne_nil value.toList
  rw [String.length_toList, ← escapeAttribute] at hle
  have hname : (UInt64.ofNat name.length).toNat = name.length :=
    UInt64.toNat_ofNat_of_lt' (by omega)
  have hone : (1 : UInt64).toNat = 1 := rfl
  have hsize : UInt64.size = 2 ^ 64 := rfl
  have hstart : (start + 1 + UInt64.ofNat name.length).toNat = start.toNat + (1 + name.length) := by
    rw [UInt64.toNat_add, UInt64.toNat_add, hname, hone]
    omega
  constructor
  · rw [length_nameTargets]
    omega
  · exact hstart
  · rw [hstart, length_valueTargets]
    omega
  · omega
  · omega

theorem before_mapText (fragment : Fragment) (element : NodeId) (assigned : Operand RecordId)
    (start : UInt64) :
    ((mapText fragment element assigned start).map MappedOrigin.origin).Pairwise Origin.Before := by
  unfold mapText
  cases fragment.children element with
  | nil => exact List.pairwise_singleton _ _
  | cons child others => exact List.pairwise_pair.mpr (Nat.le_refl _)

theorem before_mapAttribute (node : NodeId) {name value : Operand RecordId}
    (hfits : AttributeFits start (lowerAscii (assignedText name)) (assignedText value)) :
    ((mapAttribute node name value start).map MappedOrigin.origin).Pairwise Origin.Before := by
  obtain ⟨hname, hstart, -, -, -⟩ := hfits
  have hlength : (UInt64.ofNat
      (nameTargets (lowerAscii (assignedText name)).length).length).toNat =
        1 + (lowerAscii (assignedText name)).length := by
    rw [length_nameTargets] at hname ⊢
    exact UInt64.toNat_ofNat_of_lt' (by omega)
  apply List.pairwise_pair.mpr
  simp only [Origin.Before, Origin.ofTargets, hlength, hstart]
  exact Nat.le_refl _

end Spans

/-- Looking up what was assigned directly undoes the escaping, wherever it is written. A text that
    is the content of an element has one span, for what the text is escaped to there. An attribute
    has two, next to each other, for its name and its value as they are written with the marks
    around them. A style declaration has one, for what it is escaped to and one character behind. -/
theorem direct_assignments_undo_escaping (fragment : Fragment) (node : NodeId) (start : UInt64) :
    (∀ (child : NodeId) (others : List NodeId) (assigned : Operand RecordId),
      fragment.children node = child :: others →
      let text := assignedText assigned
      let escape := escapeText (fragment.tag node)
      Fits start (escape text.toList) →
      let mapped := mapText fragment node assigned start
      ∃ mark span, mapped = [⟨.node node, mark⟩, ⟨.node child, span⟩] ∧
        mark.length = 0 ∧ span.action = .textValue ∧ span.value = text ∧
        span.Occupies start.toNat (start.toNat + (escape text.toList).length) ∧
        (Mapping.ofMapped mapped).Undoes span escape text.toList start.toNat) ∧
    (∀ name value : Operand RecordId,
      let nameText := lowerAscii (assignedText name)
      let valueText := assignedText value
      let html := attributeHtml ⟨nameText, valueText⟩
      Fits start html →
      let mapped := mapAttribute node name value start
      let valueStart := start.toNat + (1 + nameText.length)
      ∃ nameSpan valueSpan,
        mapped = [⟨.attribute node nameText, nameSpan⟩, ⟨.attribute node nameText, valueSpan⟩] ∧
        nameSpan.value = nameText ∧ valueSpan.value = valueText ∧
        nameSpan.Occupies start.toNat valueStart ∧
        valueSpan.Occupies valueStart (start.toNat + html.length) ∧
        (Mapping.ofMapped mapped).Undoes nameSpan id nameText.toList (start.toNat + 1) ∧
        (Mapping.ofMapped mapped).Undoes valueSpan escapeAttribute valueText.toList
          (valueStart + 2)) ∧
    (∀ declaration : Operand RecordId,
      let text := assignedText declaration
      let escaped := escapeAttribute text.toList
      Fits start (escaped ++ [';']) →
      let mapped := mapStyle node declaration start
      mapped.target = .attribute node "style" ∧ mapped.origin.action = .styleAssignment ∧
        mapped.origin.value = text ∧
        mapped.origin.Occupies start.toNat (start.toNat + escaped.length + 1) ∧
        (Mapping.ofMapped [mapped]).Undoes mapped.origin escapeAttribute text.toList
          start.toNat) := by
  refine ⟨?_, ?_, ?_⟩
  · intro child others assigned hchildren text escape hfits mapped
    obtain ⟨hstop, htext⟩ := hfits.textSpan
    let targets := escapedTargets (fun c => escape [c]) text.toList 0
    let mark : Origin := {
      action := .replaceContents, tracking := assigned.tracking, start, extra := start.toInt64,
      value := text }
    let span : Origin := .ofTargets .textValue assigned.tracking start targets text
    have hmapped : mapped = [⟨.node node, mark⟩, ⟨.node child, span⟩] := by
      simp only [mapped, mapText, hchildren]
      rfl
    have hlength : targets.length = (escape text.toList).length := by
      rw [length_escapedTargets, ← escapeText_eq_flatMap]
    refine ⟨mark, span, hmapped, rfl, rfl, rfl, ?_, ?_⟩
    · exact occupies_ofTargets hstop rfl (by rw [hlength])
    · have htargets : targets = [] ++ targets ++ [] := by rw [List.nil_append, List.append_nil]
      have hmem : span ∈ mapped.map MappedOrigin.origin := by simp [hmapped]
      refine undoes_ofTargets (escapeText_eq_flatMap _) htargets
        (before_mapText fragment node assigned start) hmem hstop ?_ rfl
      rwa [String.length_toList]
  · intro name value nameText valueText html hfits mapped valueStart
    have hattribute := hfits.attributeSpans
    have hbefore := before_mapAttribute node hattribute
    let nameSpan : Origin := .ofTargets .attributeName name.tracking start
      (nameTargets nameText.length) nameText
    let valueSpan : Origin := .ofTargets .attributeValue value.tracking
      (start + 1 + UInt64.ofNat nameText.length) (valueTargets valueText.toList) valueText
    refine ⟨nameSpan, valueSpan, rfl, rfl, rfl, ?_, ?_, ?_, ?_⟩
    · exact occupies_ofTargets hattribute.nameStop rfl (by rw [length_nameTargets])
    · refine occupies_ofTargets hattribute.valueStop hattribute.valueStart ?_
      rw [length_valueTargets, length_attributeHtml]
      exact Nat.add_assoc _ _ _
    · have htargets := nameTargets_eq nameText.toList
      rw [String.length_toList] at htargets
      refine undoes_ofTargets (fun text => ?_) htargets hbefore List.mem_cons_self
        hattribute.nameStop ?_ rfl
      · exact (List.flatMap_singleton' text).symm
      · rw [String.length_toList]
        exact hattribute.nameLength
    · refine undoes_ofTargets (fun _ => rfl) rfl hbefore
        (List.mem_cons_of_mem _ List.mem_cons_self) hattribute.valueStop ?_ ?_
      · rw [String.length_toList]
        exact hattribute.valueLength
      · rw [hattribute.valueStart]
        rfl
  · intro declaration text escaped hfits mapped
    obtain ⟨hstop, htext⟩ := hfits.styleSpan
    let targets := escapedTargets escapeAttributeChar text.toList 0 ++ [text.length]
    have hlength : targets.length = escaped.length + 1 := by
      rw [List.length_append, length_escapedTargets, List.length_singleton]
      rfl
    refine ⟨rfl, rfl, rfl, ?_, ?_⟩
    · exact occupies_ofTargets hstop rfl (by rw [hlength, Nat.add_assoc])
    · have htargets : targets = [] ++ escapedTargets escapeAttributeChar text.toList 0 ++
          [text.length] := rfl
      refine undoes_ofTargets (fun _ => rfl) htargets (List.pairwise_singleton _ _)
        (List.mem_singleton_self _) hstop ?_ rfl
      rwa [String.length_toList]

/-- A text with an angle bracket, an attribute with an ampersand, and a declaration with a quote. -/
theorem direct_assignments_undo_references :
    let paragraph := (Fragment.new "p").appendText 0 "1 < 2"
    let text := mapText paragraph 0 { value := .str "1 < 2" } 3
    let attr := mapAttribute 0 { value := .str "Title" } { value := .str "x & y" } 2
    let style := mapStyle 0 { value := .str "font: \"a" } 7
    (∃ span, (Mapping.ofMapped text).originAt 8 = some ⟨span, 2⟩) ∧
    (∃ nameSpan valueSpan, (Mapping.ofMapped attr).originAt 4 = some ⟨nameSpan, 1⟩ ∧
      (Mapping.ofMapped attr).originAt 16 = some ⟨valueSpan, 2⟩) ∧
    (Mapping.ofMapped [style]).originAt 18 = some ⟨style.origin, 6⟩ := by
  intro paragraph text attr style
  obtain ⟨htext, -, -⟩ := direct_assignments_undo_escaping paragraph 0 3
  obtain ⟨-, hattribute, -⟩ := direct_assignments_undo_escaping paragraph 0 2
  obtain ⟨-, -, hstyle⟩ := direct_assignments_undo_escaping paragraph 0 7
  obtain ⟨-, span, -, -, -, -, -, hspan⟩ := htext 1 [] { value := .str "1 < 2" }
    (by decide) ⟨by decide, by decide⟩
  obtain ⟨nameSpan, valueSpan, -, -, -, -, -, hname, hvalue⟩ :=
    hattribute { value := .str "Title" } { value := .str "x & y" } ⟨by decide, by decide⟩
  obtain ⟨-, -, -, -, hdeclaration⟩ := hstyle { value := .str "font: \"a" }
    ⟨by decide, by decide⟩
  refine ⟨⟨span, ?_⟩, ⟨nameSpan, valueSpan, ?_, ?_⟩, ?_⟩
  · have hindex : (3 : UInt64).toNat + (escapeText (paragraph.tag 0) ['1', ' ']).length + 3 =
        8 := by decide
    rw [← hindex]
    exact (hspan ['1', ' '] '<' [' ', '2'] (by decide)).2 3 (by decide)
  · exact (hname ['t'] 'i' ['t', 'l', 'e'] (by decide)).2 0 (by decide)
  · exact (hvalue ['x', ' '] '&' [' ', 'y'] (by decide)).2 4 (by decide)
  · exact (hdeclaration ['f', 'o', 'n', 't', ':', ' '] '"' ['a'] (by decide)).2 5 (by decide)

/-! ## Inside the assigned string -/

/-- Whether every index in a span leads to a character of its string. -/
def Mapping.LeadsInside (mapping : Mapping) (span : Origin) : Prop :=
  ∀ index, span.covers index = true → ∃ charIndex < span.value.length,
    mapping.originAt index = some ⟨span, charIndex⟩

section Inside

variable {action : Action} {tracking : Option RecordId} {start : UInt64} {value : String}
  {origins : List Origin} {targets : List Nat} {index : Nat}

/-- What is looked up inside a span is one of the listed indices. -/
theorem exists_target_of_covers (hbefore : origins.Pairwise Origin.Before)
    (hmem : Origin.ofTargets action tracking start targets value ∈ origins)
    (hfits : start.toNat + targets.length < UInt64.size)
    (hlimit : ∀ target ∈ targets, target < lengthLimit)
    (hcovers : (Origin.ofTargets action tracking start targets value).covers index = true) :
    ∃ k target, targets[k]? = some target ∧ index = start.toNat + k ∧
      (Mapping.ofOrigins origins).originAt index =
        some ⟨.ofTargets action tracking start targets value, target⟩ := by
  obtain ⟨hfirst, hlast⟩ := (occupies_ofTargets hfits rfl rfl index).mp hcovers
  obtain ⟨k, rfl⟩ := Nat.exists_eq_add_of_le hfirst
  have hlt : k < targets.length := Nat.lt_of_add_lt_add_left hlast
  have htarget : targets[k]? = some targets[k] := List.getElem?_eq_getElem hlt
  exact ⟨k, targets[k], htarget, rfl,
    originAt_ofTargets hbefore hmem hfits htarget (hlimit _ (List.getElem_mem hlt))⟩

theorem leadsInside_ofTargets (hbefore : origins.Pairwise Origin.Before)
    (hmem : Origin.ofTargets action tracking start targets value ∈ origins)
    (hfits : start.toNat + targets.length < UInt64.size)
    (hinside : ∀ target ∈ targets, target < value.length) (hvalue : value.length < lengthLimit) :
    (Mapping.ofOrigins origins).LeadsInside (.ofTargets action tracking start targets value) := by
  intro index hcovers
  obtain ⟨k, target, htarget, -, hfound⟩ := exists_target_of_covers hbefore hmem hfits
    (fun target hmem => Nat.lt_trans (hinside target hmem) hvalue) hcovers
  exact ⟨target, hinside target (List.mem_of_getElem? htarget), hfound⟩

theorem leadsInside_of_empty {span : Origin} (hempty : span.length = 0) (mapping : Mapping) :
    mapping.LeadsInside span := by
  intro index hcovers
  obtain ⟨hfirst, hlast⟩ := Mapping.lt_of_covers hcovers
  rw [hempty] at hlast
  exact absurd hlast (Nat.not_lt_of_le hfirst)

theorem lt_of_mem_nameTargets {length target : Nat} (hpos : 0 < length)
    (hmem : target ∈ nameTargets length) : target < length := by
  rcases List.mem_cons.mp hmem with rfl | hmem
  · exact hpos
  · exact List.mem_range.mp hmem

theorem lt_of_mem_valueTargets {value : List Char} {target : Nat} (hpos : 0 < value.length)
    (hmem : target ∈ valueTargets value) : target < value.length := by
  simp only [valueTargets, List.mem_append, List.mem_cons, List.not_mem_nil, or_false] at hmem
  rcases hmem with ((rfl | rfl) | hmem) | rfl
  · exact hpos
  · exact hpos
  · have hlt := lt_of_mem_escapedTargets hmem
    omega
  · omega

end Inside

/-- Whatever is looked up in the span of an assigned text, or of an attribute that is not empty,
    leads to a character of what was assigned, the marks around an attribute included. So does every
    character of a style declaration, but its delimiter leads to the place behind the last one. -/
theorem direct_assignments_lead_inside (fragment : Fragment) (node : NodeId) (start : UInt64) :
    (∀ assigned : Operand RecordId,
      Fits start (escapeText (fragment.tag node) (assignedText assigned).toList) →
      let mapped := mapText fragment node assigned start
      ∀ item ∈ mapped, (Mapping.ofMapped mapped).LeadsInside item.origin) ∧
    (∀ name value : Operand RecordId,
      assignedText name ≠ "" → assignedText value ≠ "" →
      Fits start (attributeHtml ⟨lowerAscii (assignedText name), assignedText value⟩) →
      let mapped := mapAttribute node name value start
      ∀ item ∈ mapped, (Mapping.ofMapped mapped).LeadsInside item.origin) ∧
    (∀ declaration : Operand RecordId,
      let text := assignedText declaration
      let escaped := escapeAttribute text.toList
      Fits start (escaped ++ [';']) →
      let span := (mapStyle node declaration start).origin
      let mapping := Mapping.ofMapped [mapStyle node declaration start]
      ∀ index, span.covers index = true →
        (index < start.toNat + escaped.length →
          ∃ charIndex < text.length, mapping.originAt index = some ⟨span, charIndex⟩) ∧
        (index = start.toNat + escaped.length →
          mapping.originAt index = some ⟨span, text.length⟩)) := by
  refine ⟨?_, ?_, ?_⟩
  · intro assigned hfits mapped item hitem
    obtain ⟨hstop, htext⟩ := hfits.textSpan
    have hbefore := before_mapText fragment node assigned start
    have hmem : item.origin ∈ mapped.map MappedOrigin.origin := List.mem_map.mpr ⟨item, hitem, rfl⟩
    cases hchildren : fragment.children node with
    | nil =>
        simp only [mapped, mapText, hchildren, List.mem_singleton] at hitem
        subst hitem
        exact leadsInside_of_empty rfl _
    | cons child others =>
        simp only [mapped, mapText, hchildren, List.mem_cons, List.not_mem_nil, or_false] at hitem
        rcases hitem with rfl | rfl
        · exact leadsInside_of_empty rfl _
        · refine leadsInside_ofTargets hbefore hmem hstop (fun target htarget => ?_) htext
          have hlt := lt_of_mem_escapedTargets htarget
          rwa [String.length_toList, Nat.zero_add] at hlt
  · intro name value hname hvalue hfits mapped item hitem
    have hattribute := hfits.attributeSpans
    have hbefore := before_mapAttribute node hattribute
    have hmem : item.origin ∈ mapped.map MappedOrigin.origin := List.mem_map.mpr ⟨item, hitem, rfl⟩
    have hpos : ∀ {text : String}, text ≠ "" → 0 < text.length := fun hne =>
      Nat.pos_of_ne_zero fun hzero => hne (String.length_eq_zero_iff.mp hzero)
    simp only [mapped, mapAttribute, List.mem_cons, List.not_mem_nil, or_false] at hitem
    rcases hitem with rfl | rfl
    · refine leadsInside_ofTargets hbefore hmem hattribute.nameStop (fun target htarget => ?_)
        hattribute.nameLength
      refine lt_of_mem_nameTargets ?_ htarget
      rw [length_lowerAscii]
      exact hpos hname
    · refine leadsInside_ofTargets hbefore hmem hattribute.valueStop (fun target htarget => ?_)
        hattribute.valueLength
      have hlt := lt_of_mem_valueTargets (by rw [String.length_toList]; exact hpos hvalue) htarget
      rwa [String.length_toList] at hlt
  · intro declaration text escaped hfits span mapping index hcovers
    obtain ⟨hstop, htext⟩ := hfits.styleSpan
    let leading := escapedTargets escapeAttributeChar text.toList 0
    have hlength : leading.length = escaped.length := length_escapedTargets _ _ _
    have hleading : ∀ target ∈ leading, target < text.length := by
      intro target htarget
      have hlt := lt_of_mem_escapedTargets htarget
      rwa [String.length_toList, Nat.zero_add] at hlt
    have hlimit : ∀ target ∈ leading ++ [text.length], target < lengthLimit := by
      intro target htarget
      rcases List.mem_append.mp htarget with htarget | htarget
      · exact Nat.lt_trans (hleading target htarget) htext
      · rw [List.mem_singleton.mp htarget]
        exact htext
    obtain ⟨k, target, htarget, rfl, hfound⟩ := exists_target_of_covers
      (List.pairwise_singleton _ _) (List.mem_singleton_self span) hstop hlimit hcovers
    constructor
    · intro hlt
      have hindex : k < leading.length := by omega
      rw [List.getElem?_append_left hindex] at htarget
      exact ⟨target, hleading target (List.mem_of_getElem? htarget), hfound⟩
    · intro hlast
      have hk : k = leading.length := by omega
      rw [hk, List.getElem?_concat_length] at htarget
      rw [Option.some.inj htarget]
      exact hfound

/-- Strings of one character, each of them escaped but the last. -/
theorem direct_assignments_lead_inside_one :
    let paragraph := (Fragment.new "p").appendText 0 "<"
    let text := mapText paragraph 0 { value := .str "<" } 0
    let attr := mapAttribute 0 { value := .str "A" } { value := .str "&" } 2
    let style := mapStyle 0 { value := .str "a" } 7
    (∀ item ∈ text, (Mapping.ofMapped text).LeadsInside item.origin) ∧
    (∀ item ∈ attr, (Mapping.ofMapped attr).LeadsInside item.origin) ∧
    (∃ charIndex < 1, (Mapping.ofMapped [style]).originAt 7 = some ⟨style.origin, charIndex⟩) ∧
    (Mapping.ofMapped [style]).originAt 8 = some ⟨style.origin, 1⟩ := by
  intro paragraph text attr style
  obtain ⟨htext, -, -⟩ := direct_assignments_lead_inside paragraph 0 0
  obtain ⟨-, hattribute, -⟩ := direct_assignments_lead_inside paragraph 0 2
  obtain ⟨-, -, hstyle⟩ := direct_assignments_lead_inside paragraph 0 7
  have hdeclaration := hstyle { value := .str "a" } ⟨by decide, by decide⟩
  refine ⟨?_, ?_, ?_, ?_⟩
  · exact htext { value := .str "<" } ⟨by decide, by decide⟩
  · exact hattribute { value := .str "A" } { value := .str "&" } (by decide) (by decide)
      ⟨by decide, by decide⟩
  · exact (hdeclaration 7 (by decide)).1 (by decide)
  · exact (hdeclaration 8 (by decide)).2 (by decide)

/-- The delimiter behind a declaration of one character leads to a second one. -/
theorem mapStyle_leads_behind :
    let declaration : Operand RecordId := { value := .str "a" }
    let style := mapStyle 0 declaration 0
    assignedText declaration ≠ "" ∧ Fits 0 (escapeAttribute "a".toList ++ [';']) ∧
    style.origin.covers 1 = true ∧ style.origin.value.length = 1 ∧
    (Mapping.ofMapped [style]).originAt 1 = some ⟨style.origin, 1⟩ ∧
    ¬ (Mapping.ofMapped [style]).LeadsInside style.origin := by
  intro declaration style
  have hcovers : style.origin.covers 1 = true := by decide
  have hlast : (escapedTargets escapeAttributeChar (assignedText declaration).toList 0 ++
      [(assignedText declaration).length])[1]? = some 1 := by decide
  have hfound : (Mapping.ofMapped [style]).originAt 1 = some ⟨style.origin, 1⟩ :=
    originAt_ofTargets (List.pairwise_singleton _ _) (List.mem_singleton_self style.origin)
      (by decide) hlast (by decide)
  have hlength : style.origin.value.length = 1 := by decide
  refine ⟨by decide, ⟨by decide, by decide⟩, hcovers, hlength, hfound, fun hinside => ?_⟩
  obtain ⟨charIndex, hlt, hsome⟩ := hinside 1 hcovers
  rw [hfound] at hsome
  have hindex : 1 = charIndex := congrArg ResolvedOrigin.charIndex (Option.some.inj hsome)
  omega

end Provenance.Markup
