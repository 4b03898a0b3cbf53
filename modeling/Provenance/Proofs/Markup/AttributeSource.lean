import Provenance.Proofs.Markup.CharSource

/-! # Attributes as they were assigned

An attribute can be assigned in many ways: with more blanks than one before its name, with a name
in capitals, without a value, with blanks around the equals sign, with other quotes or none, and
with any mix of characters and references as its value. It is written in one way. Here it is said
what each written character stands for in what was assigned.
-/

namespace Provenance.Markup

open Provenance.Text (isBlank)

/-- How the value of an attribute was assigned. -/
structure ValueSource where
  /-- The blanks before the equals sign. -/
  before : List Char
  /-- The blanks after the equals sign. -/
  after : List Char
  quote : Option Char
  pieces : List CharSource
  deriving DecidableEq, Repr

namespace ValueSource

/-- The opening or the closing quote. -/
def mark (value : ValueSource) : List Char := value.quote.toList

def text (value : ValueSource) : List Char := value.pieces.flatMap CharSource.source

def opening (value : ValueSource) : List Char :=
  value.before ++ '=' :: (value.after ++ value.mark)

def source (value : ValueSource) : List Char := value.opening ++ (value.text ++ value.mark)

/-- Where the written equals sign, quotes and characters lead. The opening quote leads to what
    stands before the text, and the closing quote to what follows the place that the character
    before it leads to. -/
def leads (value : ValueSource) : List Nat :=
  let front := value.before.length :: (value.opening.length - 1) ::
    (CharSource.leads escapeAttributeChar value.pieces).map (value.opening.length + ·)
  front ++ [front.getLast?.getD 0 + 1]

/-- Whether a value can be assigned like this before some other text. Without quotes it must not be
    empty and not begin with a blank or a quote. -/
structure Fits (value : ValueSource) (rest : List Char) : Prop where
  before : ∀ c ∈ value.before, isBlank c = true
  before_le : value.before.length ≤ 49
  after : ∀ c ∈ value.after, isBlank c = true
  after_le : value.after.length ≤ 49
  quoted : ∀ c ∈ value.quote, c = '"' ∨ c = '\''
  unquoted : value.quote = none →
    ∃ c ∈ value.text.head?, isBlank c = false ∧ c ≠ '"' ∧ c ≠ '\''
  pieces : CharSource.Fit escapeAttributeChar value.pieces (value.mark ++ rest)

instance (value : ValueSource) (rest : List Char) : Decidable (value.Fits rest) :=
  decidable_of_iff (value.before.all isBlank = true ∧ value.before.length ≤ 49 ∧
      value.after.all isBlank = true ∧ value.after.length ≤ 49 ∧
      (value.quote.all fun c => c = '"' || c = '\'') = true ∧
      (value.quote = none →
        (value.text.head?.any fun c => !isBlank c && c ≠ '"' && c ≠ '\'') = true) ∧
      CharSource.Fit escapeAttributeChar value.pieces (value.mark ++ rest)) (by
    simp only [List.all_eq_true, Option.all_eq_true, Option.any_eq_true, Bool.or_eq_true,
      Bool.and_eq_true, decide_eq_true_eq, Bool.not_eq_true', and_assoc]
    exact ⟨fun ⟨h₁, h₂, h₃, h₄, h₅, h₆, h₇⟩ => ⟨h₁, h₂, h₃, h₄, h₅, h₆, h₇⟩,
      fun ⟨h₁, h₂, h₃, h₄, h₅, h₆, h₇⟩ => ⟨h₁, h₂, h₃, h₄, h₅, h₆, h₇⟩⟩)

end ValueSource

/-- How an attribute was assigned. -/
structure AttributeSource where
  /-- The blanks before the name. -/
  blanks : List Char
  name : List Char
  value : Option ValueSource
  deriving DecidableEq, Repr

namespace AttributeSource

def source (attr : AttributeSource) : List Char :=
  attr.blanks ++ attr.name ++ (attr.value.map ValueSource.source).getD []

/-- The attribute that a parser makes of it. -/
def parsed (attr : AttributeSource) : Attribute where
  name := lowerAscii (String.ofList attr.name)
  value := String.ofList ((attr.value.map ValueSource.pieces).getD [] |>.map CharSource.decoded)

/-- Where the written equals sign, quotes and value lead. Those of an omitted value lead to the end
    of the name. -/
def valueLeads (attr : AttributeSource) : List Nat :=
  let named := attr.blanks.length + attr.name.length
  match attr.value with
  | none => List.replicate 3 (named - 1)
  | some value => value.leads.map (named + ·)

/-- Where the written characters lead: the space to the last of the blanks, and every character of
    the name to itself. -/
def leads (attr : AttributeSource) : List Nat :=
  (attr.blanks.length - 1) :: (List.range attr.name.length).map (attr.blanks.length + ·) ++
    attr.valueLeads

/-- Whether an attribute can be assigned like this before some other text. After a name without a
    value no equals sign may follow. -/
structure Fits (attr : AttributeSource) (rest : List Char) : Prop where
  blanks : ∀ c ∈ attr.blanks, isBlank c = true
  blanks_pos : 0 < attr.blanks.length
  blanks_le : attr.blanks.length ≤ 100
  name_ne : attr.name ≠ []
  name : ∀ c ∈ attr.name, isBlank c = false ∧ c ≠ '='
  omitted : attr.value = none → (rest.dropWhile isBlank).head? ≠ some '='
  value : ∀ value ∈ attr.value, value.Fits rest

instance (attr : AttributeSource) (rest : List Char) : Decidable (attr.Fits rest) :=
  decidable_of_iff (attr.blanks.all isBlank = true ∧ 0 < attr.blanks.length ∧
      attr.blanks.length ≤ 100 ∧ attr.name ≠ [] ∧
      (attr.name.all fun c => !isBlank c && c ≠ '=') = true ∧
      (attr.value = none → (rest.dropWhile isBlank).head? ≠ some '=') ∧
      ∀ value ∈ attr.value, value.Fits rest) (by
    simp only [List.all_eq_true, Bool.and_eq_true, decide_eq_true_eq, Bool.not_eq_true']
    exact ⟨fun ⟨h₁, h₂, h₃, h₄, h₅, h₆, h₇⟩ => ⟨h₁, h₂, h₃, h₄, h₅, h₆, h₇⟩,
      fun ⟨h₁, h₂, h₃, h₄, h₅, h₆, h₇⟩ => ⟨h₁, h₂, h₃, h₄, h₅, h₆, h₇⟩⟩)

/-- Whether attributes can be assigned like this one after another, with some rest behind. -/
def Fit : List AttributeSource → (rest : List Char) → Prop
  | [], _ => True
  | attr :: attrs, rest => attr.Fits (attrs.flatMap source ++ rest) ∧ Fit attrs rest

instance : (attrs : List AttributeSource) → (rest : List Char) → Decidable (Fit attrs rest)
  | [], _ => inferInstanceAs (Decidable True)
  | attr :: attrs, rest =>
    have := instDecidableFit attrs rest
    inferInstanceAs (Decidable (attr.Fits (attrs.flatMap source ++ rest) ∧ Fit attrs rest))

def passage (attr : AttributeSource) : Passage := ⟨attr.source, attr.leads.map some⟩

end AttributeSource

theorem length_lowerAscii (text : String) : (lowerAscii text).length = text.length := by
  rw [lowerAscii, String.length_ofList, List.length_map, String.length_toList]

namespace AttributeSource

theorem length_name (attr : AttributeSource) : attr.parsed.name.length = attr.name.length := by
  rw [parsed, length_lowerAscii, String.length_ofList]

theorem escaped_parsed (attr : AttributeSource) :
    escapeAttribute attr.parsed.value.toList = ((attr.value.map ValueSource.pieces).getD []).flatMap
      (CharSource.written escapeAttributeChar) := by
  rw [parsed, String.toList_ofList]
  exact CharSource.flatMap_decoded escapeAttributeChar _

end AttributeSource

/-- What is found behind the blanks after an equals sign tells whether the value is quoted. -/
theorem ValueSource.Fits.exists_head {value : ValueSource} {rest : List Char}
    (hfits : value.Fits rest) (more : List Char) :
    ∃ c, (value.mark ++ (value.text ++ more)).head? = some c ∧ isBlank c = false ∧
      (decide (some c = some '"') || decide (some c = some '\'')) = value.quote.isSome := by
  cases hquote : value.quote with
  | some quote =>
      have hhead : (value.mark ++ (value.text ++ more)).head? = some quote := by
        simp [mark, hquote]
      rcases hfits.quoted quote hquote with rfl | rfl
      · exact ⟨_, hhead, by decide, rfl⟩
      · exact ⟨_, hhead, by decide, rfl⟩
  | none =>
      obtain ⟨c, hchar, hblank, hdouble, hsingle⟩ := hfits.unquoted hquote
      have hhead : (value.mark ++ (value.text ++ more)).head? = some c := by
        simp [mark, hquote, List.head?_append, Option.mem_def.mp hchar]
      exact ⟨c, hhead, hblank, by simp [hdouble, hsingle]⟩

namespace ValueSource

variable {value : ValueSource} {k place : Nat}

/-- The value as it is written. -/
def escaped (value : ValueSource) : List Char :=
  value.pieces.flatMap (CharSource.written escapeAttributeChar)

theorem length_mark (value : ValueSource) :
    value.mark.length = if value.quote.isSome then 1 else 0 := by
  rw [mark]
  cases value.quote with
  | none => rfl
  | some quote => rfl

theorem length_opening (value : ValueSource) : value.opening.length =
    value.before.length + 1 + value.after.length + value.mark.length := by
  simp only [opening, List.length_append, List.length_cons]
  omega

theorem length_source (value : ValueSource) : value.source.length =
    value.opening.length + value.text.length + value.mark.length := by
  rw [source, List.length_append, List.length_append, Nat.add_assoc]

theorem length_leads (value : ValueSource) : value.leads.length = value.escaped.length + 3 := by
  simp only [leads, List.length_append, List.length_cons, List.length_map, List.length_nil,
    CharSource.length_leads, escaped]

/-- What the characters of a value lead to, one after another. -/
theorem leads_cases (h : value.leads[k]? = some place) :
    (k = 0 ∧ place = value.before.length) ∨ (k = 1 ∧ place = value.opening.length - 1) ∨
      (∃ j inner, k = j + 2 ∧ place = value.opening.length + inner ∧
        (CharSource.leads escapeAttributeChar value.pieces)[j]? = some inner) ∨
      ∃ last, k = value.escaped.length + 2 ∧ place = last + 1 ∧
        value.leads[value.escaped.length + 1]? = some last := by
  let front := value.before.length :: (value.opening.length - 1) ::
    (CharSource.leads escapeAttributeChar value.pieces).map (value.opening.length + ·)
  have hfront : front.length = value.escaped.length + 2 := by
    simp only [front, List.length_cons, List.length_map, CharSource.length_leads, escaped]
  have hleads : value.leads = front ++ [front.getLast?.getD 0 + 1] := rfl
  obtain ⟨hindex, -⟩ := List.getElem?_eq_some_iff.mp h
  rw [length_leads] at hindex
  -- The closing quote is the last one; what is before it was listed one by one.
  by_cases hlt : k < value.escaped.length + 2
  · rw [hleads, List.getElem?_append_left (by omega)] at h
    match k, h with
    | 0, h => exact .inl ⟨rfl, (Option.some.inj h).symm⟩
    | 1, h => exact .inr (.inl ⟨rfl, (Option.some.inj h).symm⟩)
    | j + 2, h =>
        have hj : ((CharSource.leads escapeAttributeChar value.pieces).map
          (value.opening.length + ·))[j]? = some place := h
        rw [List.getElem?_map] at hj
        obtain ⟨inner, hinner, rfl⟩ := Option.map_eq_some_iff.mp hj
        exact .inr (.inr (.inl ⟨j, inner, rfl, rfl, hinner⟩))
  · obtain rfl : k = value.escaped.length + 2 := by omega
    obtain ⟨last, hthere⟩ : ∃ last, front[value.escaped.length + 1]? = some last :=
      ⟨_, List.getElem?_eq_getElem (by omega)⟩
    have hlast : front.getLast? = some last := by
      rw [List.getLast?_eq_getElem?, hfront]
      exact hthere
    refine .inr (.inr (.inr ⟨last, rfl, ?_, ?_⟩))
    · rw [hleads, List.getElem?_append_right (by omega), hfront, Nat.sub_self, hlast] at h
      exact (Option.some.inj h).symm
    · rw [hleads, List.getElem?_append_left (by omega), hthere]

end ValueSource

namespace AttributeSource

variable {k place : Nat}

theorem length_valueLeads (attr : AttributeSource) :
    attr.valueLeads.length = (escapeAttribute attr.parsed.value.toList).length + 3 := by
  rw [valueLeads, attr.escaped_parsed]
  cases attr.value with
  | none => rfl
  | some value => simp only [List.length_map, ValueSource.length_leads]; rfl

theorem length_leads (attr : AttributeSource) : attr.leads.length =
    1 + attr.name.length + ((escapeAttribute attr.parsed.value.toList).length + 3) := by
  rw [leads, List.length_append, length_valueLeads, List.length_cons, List.length_map,
    List.length_range, Nat.add_comm attr.name.length]

theorem length_leads_eq_html (attr : AttributeSource) :
    attr.leads.length = (attributeHtml attr.parsed).length := by
  rw [length_leads]
  simp only [attributeHtml, List.length_append, List.length_cons, List.length_nil,
    String.length_toList, length_name]
  omega

/-- What the characters of an attribute lead to, one after another. -/
theorem leads_cases {attr : AttributeSource} (hpos : 0 < attr.blanks.length)
    (h : attr.leads[k]? = some place) :
    (k < 1 + attr.name.length ∧ place + 1 = attr.blanks.length + k) ∨
      ∃ j, k = 1 + attr.name.length + j ∧ attr.valueLeads[j]? = some place := by
  have hnamed : ((attr.blanks.length - 1) ::
      (List.range attr.name.length).map (attr.blanks.length + ·)).length =
        1 + attr.name.length := by
    rw [List.length_cons, List.length_map, List.length_range, Nat.add_comm]
  rw [leads] at h
  by_cases hlt : k < 1 + attr.name.length
  · rw [List.getElem?_append_left (hnamed ▸ hlt)] at h
    refine .inl ⟨hlt, ?_⟩
    match k, h with
    | 0, h =>
        obtain rfl : attr.blanks.length - 1 = place := Option.some.inj h
        omega
    | i + 1, h =>
        rw [List.getElem?_cons_succ, List.getElem?_map, List.getElem?_range (by omega)] at h
        obtain rfl : attr.blanks.length + i = place := Option.some.inj h
        omega
  · rw [List.getElem?_append_right (by omega), hnamed] at h
    exact .inr ⟨k - (1 + attr.name.length), by omega, h⟩

variable {front back attrs : List AttributeSource} {rest : List Char}

theorem Fit.of_append (h : Fit (front ++ back) rest) : Fit back rest := by
  induction front with
  | nil => exact h
  | cons attr front ih => exact ih h.2

theorem source_join (attrs : List AttributeSource) :
    (Passage.join (attrs.map passage)).source = attrs.flatMap source := by
  rw [Passage.source_join, List.flatMap_map]
  rfl

theorem length_leads_flatMap (attrs : List AttributeSource) :
    ((attrs.map passage).flatMap Passage.leads).length =
      ((attrs.map parsed).flatMap attributeHtml).length := by
  rw [List.flatMap_map parsed attributeHtml]
  refine Passage.length_leads_map fun attr _ => ?_
  rw [passage, List.length_map]
  exact attr.length_leads_eq_html

/-- Where a character of one attribute among others leads. -/
theorem leads_join {attr : AttributeSource} {k place : Nat} (h : attr.leads[k]? = some place) :
    (Passage.join ((front ++ attr :: back).map passage)).leads[
      ((front.map parsed).flatMap attributeHtml).length + k]? =
        some (some ((front.flatMap source).length + place)) := by
  have hlead : attr.passage.leads[k]? = some (some place) := by
    rw [passage, List.getElem?_map, h]
    rfl
  have hjoined := Passage.leads_join (front.map passage) (back.map passage) hlead
  rwa [length_leads_flatMap, ← Passage.source_join, source_join, ← List.map_cons,
    ← List.map_append] at hjoined

/-- The passage of an opening tag, up to the end of its last attribute. -/
def tagPassage (name : List Char) (attrs : List AttributeSource) : Passage :=
  .same ('<' :: name) ++ .join (attrs.map passage)

theorem source_tagPassage (name : List Char) (attrs : List AttributeSource) :
    (tagPassage name attrs).source = '<' :: (name ++ attrs.flatMap source) := by
  rw [tagPassage, Passage.source_append, source_join]
  rfl

theorem length_leads_tagPassage {name : List Char} {tag : String}
    (hname : name.length = tag.length) (attrs : List AttributeSource) :
    (tagPassage name attrs).leads.length + 1 = (openingTag tag (attrs.map parsed)).length := by
  simp only [tagPassage, openingTag, Passage.length_leads_append, Passage.length_leads_same,
    Passage.length_leads_join, length_leads_flatMap, List.length_append, List.length_cons,
    List.length_nil, hname, String.length_toList]

/-- Where a character of an attribute leads, counted from the beginning of the tag. -/
theorem leads_tagPassage (name : List Char) (front back : List AttributeSource)
    {attr : AttributeSource} {k place : Nat} (h : attr.leads[k]? = some place) :
    (tagPassage name (front ++ attr :: back)).leads[
      1 + name.length + ((front.map parsed).flatMap attributeHtml).length + k]? =
        some (some (1 + name.length + (front.flatMap source).length + place)) := by
  have hjoined : (tagPassage name (front ++ attr :: back)).leads[_]? = _ :=
    Passage.leads_append_right (leads_join h)
  have hsource : (Passage.same ('<' :: name)).source.length = 1 + name.length := Nat.add_comm ..
  rw [Passage.length_leads_same, hsource, List.length_cons, Nat.add_comm name.length,
    ← Nat.add_assoc, ← Nat.add_assoc] at hjoined
  exact hjoined

end AttributeSource

end Provenance.Markup
