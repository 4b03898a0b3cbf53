import Provenance.Markup.Mapper
import Provenance.Proofs.Markup.Correction
import Provenance.Proofs.Markup.Reference

/-! # Markup that was assigned as it is written

A stretch of the walk keeps a text when it passes over it without any correction, provided
that the assigned string has the same text at the same place. What comes after the text is
part of the condition, since the mapper looks ahead of where it stands.
-/

namespace Provenance.Markup

open Provenance.Text (isBlank leadingBlanks lowercase)

/-- An origin without any correction. -/
def Origin.Plain (origin : Origin) : Prop :=
  origin.extra = 0 ∧ ∀ relative, origin.offsetAt relative = 0

theorem Origin.Plain.assignedIndex {origin : Origin} {index : Nat} (hplain : origin.Plain)
    (hle : origin.start.toNat ≤ index) (hlt : index < lengthLimit) :
    origin.assignedIndex index = some index := by
  have hsame : Int64.ofNat index - origin.extra +
      origin.offsetAt (index - origin.start.toNat) = Int64.ofNat index := by
    rw [hplain.1, hplain.2, Int64.sub_zero, Int64.add_zero]
  have hint := toInt_ofNat_of_lt hlt
  have hpos : ¬ Int64.ofNat index < 0 := by
    rw [Int64.lt_iff_toInt_lt, hint]
    exact Int.not_lt.mpr (Int.natCast_nonneg index)
  have hnat : (Int64.ofNat index).toNatClampNeg = index := by
    rw [← Int64.toNat_toInt, hint, Int.toNat_natCast]
  simp only [Origin.assignedIndex, if_neg (Nat.not_lt_of_le hle), hsame, if_neg hpos, hnat]

namespace Source

variable {source : Source .checked} {before text rest : List Char}

theorem slice_of_append (hsource : source.chars = before ++ text) (count : Nat) :
    source.slice before.length count = text.take count := by
  have hpos : ¬ (before.length : Int) < 0 := by omega
  rw [slice_eq, if_neg hpos, hsource, Int.toNat_natCast, List.drop_left]

theorem slice_after {front back : List Char} (hsource : source.chars = before ++ (front ++ back))
    {position : Int} (hposition : position = (before.length + front.length : Nat)) (count : Nat) :
    source.slice position count = back.take count := by
  rw [hposition, ← List.length_append]
  exact slice_of_append (by rw [hsource, List.append_assoc]) count

/-- Whether the references of a text are the same with and without what follows it. -/
def Whole (text rest : List Char) : Prop :=
  ∀ suffix, suffix <:+ text → suffix ≠ [] →
    referenceLength? (suffix ++ rest) = referenceLength? suffix

/-- Whether a text has no escaped ampersand. -/
def NoEscapedAmpersand (text : List Char) : Prop :=
  ∀ suffix, suffix <:+ text → ['&', 'a', 'm', 'p', ';'].isPrefixOf suffix = false

theorem pairing_of_same {keeps : Bool} {assigned : List Char}
    (hreference : referenceLength? assigned = referenceLength? text)
    (hkept : keeps = true → ['&', 'a', 'm', 'p', ';'].isPrefixOf text = false) :
    pairing keeps text assigned = .same := by
  unfold pairing
  rw [hreference]
  cases referenceLength? text with
  | none => rfl
  | some length =>
      have hnot : (keeps && ['&', 'a', 'm', 'p', ';'].isPrefixOf text) = false := by
        cases hkeeps : keeps with
        | false => rfl
        | true => rw [hkept hkeeps, Bool.and_false]
      simp only [hnot, Bool.false_eq_true, if_false]

theorem joinsLines_of_same {c : Char} {tail other : List Char} :
    joinsLines (c :: tail) (c :: other) = false := by
  by_cases hchar : c = '\n'
  · subst hchar
    rfl
  · simp [joinsLines, hchar]

/-- The part of a text up to some place needs no corrections if it was assigned as it is
    written, whatever comes behind. -/
theorem corrections_front {keeps : Bool} (hend : source.contentEnd = source.chars.length)
    {more : List Char} (hsource : source.chars = before ++ (text ++ (more ++ rest)))
    (hended : Whole (text ++ more) rest)
    (hkept : keeps = true → ∀ suffix, suffix <:+ text → suffix ≠ [] →
      ['&', 'a', 'm', 'p', ';'].isPrefixOf (suffix ++ more) = false) :
    source.corrections keeps (text ++ more) 0 before.length 0 =
      let after := source.corrections keeps more 0 (before.length + text.length : Nat) 0
      (List.replicate text.length 0 ++ after.1, after.2) := by
  induction text generalizing before with
  | nil => rfl
  | cons c text ih =>
      have hlt : (before.length : Int) < source.contentEnd := by
        rw [hend, hsource]
        simp only [List.length_append, List.length_cons]
        omega
      have hslice : source.slice before.length referenceWindow =
          c :: (text ++ (more ++ rest)).take 29 := by
        rw [slice_of_append hsource]
        rfl
      have hreference : referenceLength? (c :: (text ++ (more ++ rest)).take 29) =
          referenceLength? (c :: (text ++ more)) := by
        have hwhole := hended (c :: (text ++ more)) List.suffix_rfl (List.cons_ne_nil c _)
        rw [← hwhole, ← referenceLength?_take (c :: (text ++ more) ++ rest), List.cons_append,
          List.append_assoc]
        rfl
      have hpair : pairing keeps (c :: (text ++ more)) (c :: (text ++ (more ++ rest)).take 29) =
          .same :=
        pairing_of_same hreference fun hkeeps =>
          hkept hkeeps _ List.suffix_rfl (List.cons_ne_nil c text)
      have hnext : (before.length : Int) + 1 + 0 = ((before ++ [c]).length : Nat) := by
        simp
      have hlength : (before ++ [c]).length + text.length = before.length + (c :: text).length := by
        simp only [List.length_append, List.length_cons, List.length_nil]
        omega
      have hrest := @ih (before ++ [c]) (by rw [hsource]; simp)
        (fun suffix hsuffix => hended suffix (hsuffix.trans (List.suffix_cons c _)))
        fun hkeeps suffix hsuffix => hkept hkeeps suffix (hsuffix.trans (List.suffix_cons c text))
      rw [hlength] at hrest
      have hsame : pairing keeps (c :: (text ++ more)) (source.slice before.length
          referenceWindow) = .same := by
        rw [hslice, hpair]
      have hgain : (if joinsLines (c :: (text ++ more)) (source.slice before.length
          referenceWindow) then 1 else 0) + (Pairing.same.dropped : Int) = 0 := by
        rw [hslice, joinsLines_of_same]
        rfl
      rw [List.cons_append, corrections_pair hlt hsame hgain, hnext, Int.sub_zero]
      simp only [Pairing.inside, hrest]
      rfl

/-- A text that was assigned as it is written needs no corrections. -/
theorem corrections_of_same {keeps : Bool} (hend : source.contentEnd = source.chars.length)
    (hsource : source.chars = before ++ (text ++ rest)) (hwhole : Whole text rest)
    (hkept : keeps = true → NoEscapedAmpersand text) :
    source.corrections keeps text 0 before.length 0 = (List.replicate text.length 0, 0) := by
  have hfront := @corrections_front source before text rest keeps hend [] hsource
    (by rwa [List.append_nil])
    fun hkeeps suffix hsuffix _ => by rw [List.append_nil]; exact hkept hkeeps suffix hsuffix
  simpa [corrections] using hfront

theorem whole_escapeText {tag : String} {content : List Char}
    (hrawText : isRawText tag = true → ∀ c, rest.head? = some c → c = '<') :
    Whole (escapeText tag content) rest := by
  intro suffix hsuffix hne
  by_cases hraw : isRawText tag = true
  · refine referenceLength?_append fun c hhead => ?_
    rw [hrawText hraw c hhead]
    decide
  · rw [escapeText, if_neg hraw] at hsuffix
    exact referenceLength?_of_escaped escaping_text hsuffix hne

theorem noEscapedAmpersand_of_not_mem (h : '&' ∉ text) : NoEscapedAmpersand text := by
  intro suffix hsuffix
  cases suffix with
  | nil => rfl
  | cons c tail =>
      have hchar : ('&' == c) = false := by
        refine beq_false_of_ne ?_
        rintro rfl
        exact h (hsuffix.subset List.mem_cons_self)
      simp only [List.isPrefixOf, hchar, Bool.false_and]

/-- No part of an escaped text begins an escaped ampersand, whatever comes behind, if the text has
    none. -/
theorem not_escapedAmpersand_of_escaped {escape : Char → List Char} (hescaping : Escaping escape)
    (hescape : ∀ c more, c ≠ '&' → ['&', 'a', 'm', 'p', ';'].isPrefixOf (escape c ++ more) = false)
    (h : '&' ∉ text) {suffix : List Char} (hsuffix : suffix <:+ text.flatMap escape)
    (hne : suffix ≠ []) (more : List Char) :
    ['&', 'a', 'm', 'p', ';'].isPrefixOf (suffix ++ more) = false := by
  cases suffix with
  | nil => exact absurd rfl hne
  | cons c tail =>
      by_cases hchar : c = '&'
      · subst hchar
        obtain ⟨d, hother, rest, heq⟩ := exists_escape_of_suffix hescaping hsuffix
        rw [heq, List.append_assoc]
        exact hescape d _ fun hchar' => h (by rwa [← hchar'])
      · have hchar : ('&' == c) = false := beq_false_of_ne fun heq => hchar heq.symm
        simp only [List.cons_append, List.isPrefixOf, hchar, Bool.false_and]

theorem noEscapedAmpersand_of_escaped {escape : Char → List Char} (hescaping : Escaping escape)
    (hescape : ∀ c more, c ≠ '&' → ['&', 'a', 'm', 'p', ';'].isPrefixOf (escape c ++ more) = false)
    (h : '&' ∉ text) : NoEscapedAmpersand (text.flatMap escape) := by
  intro suffix hsuffix
  cases suffix with
  | nil => rfl
  | cons c tail =>
      have hnot :=
        not_escapedAmpersand_of_escaped hescaping hescape h hsuffix (List.cons_ne_nil c tail) []
      rwa [List.append_nil] at hnot

theorem noEscapedAmpersand_escapeText {tag : String} {content : List Char}
    (h : '&' ∉ content) : NoEscapedAmpersand (escapeText tag content) := by
  unfold escapeText
  split
  · exact noEscapedAmpersand_of_not_mem h
  · refine noEscapedAmpersand_of_escaped escaping_text (fun c more hchar => ?_) h
    have hchar' : ('&' == c) = false := beq_false_of_ne fun heq => hchar heq.symm
    unfold escapeTextChar
    split
    · contradiction
    · split
      · rfl
      · split
        · rfl
        · split
          · rfl
          · simp only [List.singleton_append, List.isPrefixOf, hchar', Bool.false_and]

theorem escapeAttributeChar_of_ne {c : Char} (more : List Char) (hchar : c ≠ '&') :
    ['&', 'a', 'm', 'p', ';'].isPrefixOf (escapeAttributeChar c ++ more) = false := by
  have hchar' : ('&' == c) = false := beq_false_of_ne fun heq => hchar heq.symm
  unfold escapeAttributeChar
  split
  · contradiction
  · split
    · rfl
    · split
      · rfl
      · simp only [List.singleton_append, List.isPrefixOf, hchar', Bool.false_and]

theorem noEscapedAmpersand_escapeAttribute {value : List Char} (h : '&' ∉ value) :
    NoEscapedAmpersand (escapeAttribute value) :=
  noEscapedAmpersand_of_escaped escaping_attribute (fun _ => escapeAttributeChar_of_ne) h

end Source

namespace Mapper

variable {mapper : Mapper .checked} {first second : Walk} {before front back text rest : List Char}

theorem plain_origin (mapper : Mapper .checked) (target : Target) (action : Action)
    (start length : Nat)
    {offsets : Option (List Int)} (hoffset : ∀ table, offsets = some table → ∀ o ∈ table, o = 0) :
    (mapper.origin target action start length 0 offsets).origin.Plain := by
  refine ⟨rfl, fun relative => ?_⟩
  cases offsets with
  | none => rfl
  | some table =>
      simp only [Origin.offsetAt, origin, Option.map_some, Option.bind_some, List.getElem?_map]
      cases ho' : table[relative]? with
      | none => rfl
      | some o =>
          rw [hoffset table rfl o (List.mem_of_getElem? ho')]
          rfl

/-- A stretch keeps a text: where the assigned string has the text, and then the rest, the
    stretch moves over the text and corrects nothing. -/
def Keeps (mapper : Mapper .checked) (walk : Walk) (text rest : List Char) : Prop :=
  ∀ before, mapper.source.chars = before ++ (text ++ rest) →
    (walk ⟨before.length, 0⟩).1 = ⟨before.length + text.length, 0⟩ ∧
      (walk ⟨before.length, 0⟩).2.diagnostics = [] ∧
        ∀ mapped ∈ (walk ⟨before.length, 0⟩).2.origins, mapped.origin.Plain

theorem keeps_stay (mapper : Mapper .checked) (rest : List Char) : mapper.Keeps .stay [] rest :=
  fun _ _ => ⟨rfl, rfl, fun _ hmem => nomatch hmem⟩

theorem keeps_advance (mapper : Mapper .checked) (text rest : List Char) :
    mapper.Keeps (.advance text.length) text rest :=
  fun _ _ => ⟨rfl, rfl, fun _ hmem => nomatch hmem⟩

theorem Keeps.andThen (hfirst : mapper.Keeps first front (back ++ rest))
    (hsecond : mapper.Keeps second back rest) :
    mapper.Keeps (first.andThen second) (front ++ back) rest := by
  intro before hsource
  obtain ⟨hmove, hdiagnostics, hplain⟩ := hfirst before (by rw [hsource]; simp)
  have hmove' : (first ⟨before.length, 0⟩).1 = ⟨(before ++ front).length, 0⟩ := by
    rw [hmove, List.length_append]
  obtain ⟨hlast, hdiagnostics', hplain'⟩ := hsecond (before ++ front) (by rw [hsource]; simp)
  rw [← hmove'] at hlast hdiagnostics' hplain'
  refine ⟨?_, ?_, ?_⟩
  · have hlength : before.length + (front ++ back).length =
        (before ++ front).length + back.length := by
      simp only [List.length_append, Nat.add_assoc]
    rw [hlength]
    exact hlast
  · show (first _).2.diagnostics ++ (second _).2.diagnostics = []
    rw [hdiagnostics, hdiagnostics', List.append_nil]
  · intro mapped hmem
    rcases List.mem_append.mp hmem with hmem | hmem
    · exact hplain mapped hmem
    · exact hplain' mapped hmem

/-- Stretches for the items of a list, each of which looks ahead at what is written for the
    items after it. -/
theorem keeps_all {items : List α} {walks : α → Walk} {texts : α → List Char}
    (h : ∀ front item back, items = front ++ item :: back →
      mapper.Keeps (walks item) (texts item) (back.flatMap texts ++ rest)) :
    mapper.Keeps (.all (items.map walks)) (items.flatMap texts) rest := by
  induction items with
  | nil => exact keeps_stay mapper rest
  | cons item items ih =>
      have hrest := ih fun front other back heq => h (item :: front) other back (by rw [heq]; rfl)
      exact (h [] item items rfl).andThen hrest

theorem keeps_emit (mapper : Mapper .checked) (target : Target) (action : Action)
    (rest : List Char) : mapper.Keeps (mapper.emit target action 0) [] rest := by
  refine fun before _ => ⟨rfl, rfl, fun mapped hmem => ?_⟩
  rw [List.mem_singleton.mp hmem]
  exact mapper.plain_origin _ _ _ _ fun table hnone => nomatch hnone

theorem keeps_span (mapper : Mapper .checked) (target : Target) (action : Action) (rest : List Char)
    {length : Nat} (hlength : length = text.length) :
    mapper.Keeps (mapper.span target action length) text rest := by
  refine fun before _ => ⟨?_, rfl, fun mapped hmem => ?_⟩
  · rw [hlength]
    rfl
  · rw [List.mem_singleton.mp hmem]
    exact mapper.plain_origin _ _ _ _ fun table hnone => nomatch hnone

theorem assigned_of_extra_zero (written : Nat) :
    (⟨written, 0⟩ : Cursor).assigned = (written : Int) := Int.sub_zero _

theorem keeps_text (hend : mapper.source.contentEnd = mapper.source.chars.length)
    (id : NodeId) {parentTag content : String}
    (hraw : isRawText parentTag = true → ∀ c, rest.head? = some c → c = '<')
    (hkept : keepsReferences parentTag = true → '&' ∉ content.toList) :
    mapper.Keeps (mapper.text id parentTag content) (escapeText parentTag content.toList) rest := by
  intro before hsource
  let html := escapeText parentTag content.toList
  have htable : mapper.source.table parentTag html before.length =
      (List.replicate html.length 0, 0) :=
    Source.corrections_of_same hend hsource (Source.whole_escapeText hraw)
      fun hkeeps => Source.noEscapedAmpersand_escapeText (hkept hkeeps)
  have hwalk : mapper.text id parentTag content ⟨before.length, 0⟩ =
      (⟨before.length + html.length, 0⟩,
        { origins := [mapper.origin (.node id) .textValue before.length html.length 0
          (if (List.replicate html.length (0 : Int)).isEmpty then none
            else some (List.replicate html.length 0))]
          sums := mapper.source.tableSums parentTag html before.length ++ [0] }) := by
    simp only [text, assigned_of_extra_zero, html, htable, Int.add_zero]
  rw [hwalk]
  refine ⟨rfl, rfl, fun mapped hmem => ?_⟩
  rw [List.mem_singleton.mp hmem]
  refine mapper.plain_origin _ _ _ _ fun table hsome o ho => ?_
  split at hsome
  · cases hsome
  · rw [← Option.some.inj hsome] at ho
    exact List.eq_of_mem_replicate ho

theorem keeps_comment (mapper : Mapper .checked) (id : NodeId) (content : String)
    (rest : List Char) : mapper.Keeps (mapper.comment id content)
      ("<!--".toList ++ content.toList ++ "-->".toList) rest := by
  have hall : mapper.Keeps (mapper.comment id content)
      ("<!--".toList ++ (content.toList ++ ("-->".toList ++ []))) rest :=
    Keeps.andThen (keeps_span _ _ _ _ rfl)
      (Keeps.andThen (keeps_span _ _ _ _ String.length_toList.symm)
        (Keeps.andThen (keeps_span _ _ _ _ rfl) (keeps_stay mapper rest)))
  rwa [List.append_nil, ← List.append_assoc] at hall

theorem leadingBlanks_cons {c : Char} (hblank : isBlank c = false) (text : List Char) :
    leadingBlanks (c :: text) = 0 := by
  simp [leadingBlanks, hblank]

theorem leadingBlanks_of_head {text : List Char} (count : Nat)
    (h : ∀ c, text.head? = some c → isBlank c = false) : leadingBlanks (text.take count) = 0 := by
  cases text with
  | nil => simp [leadingBlanks]
  | cons c text =>
      cases count with
      | zero => rfl
      | succ count => exact leadingBlanks_cons (h c rfl) _

theorem valueOffsets_of_same {tag : String} {escaped : List Char} {position : Int}
    (htable : mapper.source.table tag escaped position = (List.replicate escaped.length 0, 0)) :
    (∀ o ∈ (mapper.valueOffsets tag escaped true 0 0 position).1, o = 0) ∧
      (mapper.valueOffsets tag escaped true 0 0 position).2 = 0 := by
  have hzeros : ∀ o ∈ (-0 : Int) :: -0 :: (List.replicate escaped.length (0 : Int) ++
      List.replicate (escaped.length - (List.replicate escaped.length (0 : Int)).length)
        ((List.replicate escaped.length (0 : Int)).getLast?.getD 0)).map (· - 0), o = 0 := by
    simp
  simp only [valueOffsets, htable, if_true]
  refine ⟨fun o ho => ?_, rfl⟩
  rcases List.mem_append.mp ho with ho | ho
  · exact hzeros o ho
  · rw [List.mem_singleton.mp ho]
    cases hlast : List.getLast? _ with
    | none => rfl
    | some last => exact hzeros last (List.mem_of_getLast? hlast)

/-- The spelling of an attribute that was assigned as it is written: only its value can need a
    correction. -/
theorem spelling_as_written {attr : Attribute}
    (hsource : mapper.source.chars = before ++ (attributeHtml attr ++ rest))
    (hname : ∀ c, attr.name.toList.head? = some c → isBlank c = false) (tag : String) :
    let value := mapper.valueOffsets tag (escapeAttribute attr.value.toList) true 0 0
      (before.length + (attr.name.length + 3) : Nat)
    mapper.spelling tag attr before.length =
      { nameOffset := 0, valueOffsets := value.1, added := value.2, mismatches := [] } := by
  let escaped := escapeAttribute attr.value.toList
  have hattr : attributeHtml attr ++ rest =
      ' ' :: (attr.name.toList ++ '=' :: '"' :: (escaped ++ '"' :: rest)) := by
    simp [attributeHtml, escaped]
  rw [hattr] at hsource
  have hblank : leadingBlanks (mapper.source.slice before.length 100) = 1 := by
    rw [Source.slice_of_append hsource]
    have htail : leadingBlanks ((attr.name.toList ++ '=' :: '"' :: (escaped ++ '"' :: rest)).take
        99) = 0 := by
      refine leadingBlanks_of_head 99 fun c hhead => ?_
      cases hempty : attr.name.toList with
      | nil =>
          rw [hempty] at hhead
          obtain rfl := Option.some.inj hhead
          decide
      | cons d name =>
          rw [hempty] at hhead hname
          exact hname c hhead
    simp only [leadingBlanks] at htail ⊢
    rw [List.take_succ_cons, List.takeWhile_cons_of_pos (by decide), List.length_cons, htail]
  have hequals : mapper.source.slice (before.length + (1 : Nat) + attr.name.length) 50 =
      '=' :: ('"' :: (escaped ++ '"' :: rest)).take 49 := by
    have hsplit : mapper.source.chars =
        before ++ (' ' :: attr.name.toList ++ '=' :: '"' :: (escaped ++ '"' :: rest)) := hsource
    refine Source.slice_after hsplit ?_ 50
    simp only [List.length_cons, String.length_toList]
    omega
  have hquote : mapper.source.slice
      (before.length + (1 : Nat) + attr.name.length + (0 : Nat) + 1) 50 =
      '"' :: (escaped ++ '"' :: rest).take 49 := by
    have hsplit : mapper.source.chars =
        before ++ (' ' :: attr.name.toList ++ ['='] ++ '"' :: (escaped ++ '"' :: rest)) := by
      simp [hsource]
    refine Source.slice_after hsplit ?_ 50
    simp only [List.length_append, List.length_cons, List.length_nil, String.length_toList]
    omega
  have hequalsBlanks := leadingBlanks_cons (c := '=') (by decide)
  have hquoteBlanks := leadingBlanks_cons (c := '"') (by decide)
  have hposition : (before.length : Int) + (1 : Nat) + attr.name.length + (0 : Nat) + 1 +
      (0 : Nat) + 1 = (before.length + (attr.name.length + 3) : Nat) := by omega
  intro value
  simp only [spelling, hblank, hequals, hequalsBlanks, hquote, hquoteBlanks]
  simp only [value, ← hposition]
  rfl

/-- An attribute that was assigned as it is written. -/
theorem spelling_of_same (hend : mapper.source.contentEnd = mapper.source.chars.length)
    {tag : String} {attr : Attribute}
    (hsource : mapper.source.chars = before ++ (attributeHtml attr ++ rest))
    (hname : ∀ c, attr.name.toList.head? = some c → isBlank c = false)
    (hkept : keepsReferences tag = true → '&' ∉ attr.value.toList) :
    (mapper.spelling tag attr before.length).nameOffset = 0 ∧
      (∀ o ∈ (mapper.spelling tag attr before.length).valueOffsets, o = 0) ∧
      (mapper.spelling tag attr before.length).added = 0 ∧
      (mapper.spelling tag attr before.length).mismatches = [] := by
  let escaped := escapeAttribute attr.value.toList
  have hsplit : mapper.source.chars =
      (before ++ ' ' :: attr.name.toList ++ ['=', '"']) ++ (escaped ++ '"' :: rest) := by
    simp [hsource, attributeHtml, escaped]
  have hposition : before.length + (attr.name.length + 3) =
      (before ++ ' ' :: attr.name.toList ++ ['=', '"']).length := by
    simp only [List.length_append, List.length_cons, List.length_nil, String.length_toList]
    omega
  have htable : mapper.source.table tag escaped (before.length + (attr.name.length + 3) : Nat) =
      (List.replicate escaped.length 0, 0) := by
    rw [hposition]
    exact Source.corrections_of_same hend hsplit
      (fun suffix hsuffix hne => referenceLength?_of_escaped escaping_attribute hsuffix hne)
      fun hkeeps => Source.noEscapedAmpersand_escapeAttribute (hkept hkeeps)
  obtain ⟨hoffsets, hadded⟩ := valueOffsets_of_same htable
  rw [spelling_as_written hsource hname]
  exact ⟨rfl, hoffsets, hadded, rfl⟩

theorem keeps_attribute (hend : mapper.source.contentEnd = mapper.source.chars.length)
    (id : NodeId) {tag : String} {attr : Attribute}
    (hname : ∀ c, attr.name.toList.head? = some c → isBlank c = false)
    (hkeeps : keepsReferences tag = true → '&' ∉ attr.value.toList) (rest : List Char) :
    mapper.Keeps (mapper.attributeSpans id tag attr) (attributeHtml attr) rest := by
  intro before hsource
  obtain ⟨hnameOffset, hvalueOffsets, hadded, hmismatches⟩ :=
    spelling_of_same hend hsource hname hkeeps
  have hlength : before.length + (1 + attr.name.length) +
      ((escapeAttribute attr.value.toList).length + 3) =
        before.length + (attributeHtml attr).length := by
    simp only [attributeHtml, List.length_append, List.length_cons, List.length_nil,
      String.length_toList]
    omega
  refine ⟨?_, ?_, fun mapped hmem => ?_⟩
  · simp only [attributeSpans, assigned_of_extra_zero, hadded, hlength, Int.add_zero]
  · simp only [attributeSpans, assigned_of_extra_zero, hmismatches, List.map_nil]
  · simp only [attributeSpans, assigned_of_extra_zero, hnameOffset] at hmem
    simp only [List.mem_cons, List.not_mem_nil, or_false] at hmem
    rcases hmem with rfl | rfl
    · refine mapper.plain_origin _ _ _ _ fun table hsome o ho => ?_
      rw [← Option.some.inj hsome] at ho
      exact List.eq_of_mem_replicate ho
    · refine mapper.plain_origin _ _ _ _ fun table hsome o ho => ?_
      rw [← Option.some.inj hsome] at ho
      exact hvalueOffsets o ho

/-- There are no blanks before the end of a tag. -/
theorem keeps_tagBlanks (mapper : Mapper .checked) (rest : List Char) :
    mapper.Keeps mapper.tagBlanks [] ('>' :: rest) := by
  intro before hsource
  have hslice : mapper.source.slice before.length 200 = '>' :: rest.take 199 := by
    rw [Source.slice_of_append hsource]
    rfl
  have hwalk : mapper.tagBlanks ⟨before.length, 0⟩ =
      Walk.add 0 [(before.length : Int)] ⟨before.length, 0⟩ := by
    simp only [tagBlanks, assigned_of_extra_zero, hslice,
      leadingBlanks_cons (c := '>') (by decide)]
    rfl
  rw [hwalk]
  exact ⟨rfl, rfl, fun _ hmem => nomatch hmem⟩

/-- A closing tag does not begin like the end of a self-closing tag. -/
theorem selfClosed_of_closingTag {tag : String}
    (hsource : mapper.source.chars = before ++ (closingTag tag ++ rest)) (length : Nat) :
    mapper.selfClosed length ⟨before.length + length, 0⟩ =
      Walk.add 0 [((before.length + length : Nat) : Int), (before.length + length : Nat) - 1,
        before.length - 1] ⟨before.length + length, 0⟩ := by
  have hposition : ((before.length + length : Nat) : Int) - 1 - (length : Int) =
      before.length - 1 := by omega
  have hslice : mapper.source.slice ((before.length : Int) - 1) 2 ≠ ['/', '>'] := by
    rcases List.eq_nil_or_concat before with rfl | ⟨front, c, rfl⟩
    · exact fun hslice => nomatch hslice
    · have hsplit : mapper.source.chars = front ++ (c :: closingTag tag ++ rest) := by
        rw [hsource]
        simp
      have hlength : (((front ++ [c]).length : Nat) : Int) - 1 = front.length := by simp
      rw [List.concat_eq_append, hlength, Source.slice_of_append hsplit]
      exact fun hslice => absurd (List.cons.inj (List.cons.inj hslice).2).1 (by decide)
  simp only [selfClosed, assigned_of_extra_zero, hposition, hslice]
  rfl

theorem keeps_closing (mapper : Mapper .checked) (id : NodeId) (tag : String) (rest : List Char) :
    mapper.Keeps (mapper.closing id tag) (closingTag tag) rest := by
  have hlength := length_closingTag tag
  intro before hsource
  have hspan := keeps_span mapper (.node id) .closingTag rest hlength before hsource
  have hself := selfClosed_of_closingTag hsource (3 + tag.length)
  rw [hlength] at hspan hself
  generalize hsums : [((before.length + (closingTag tag).length : Nat) : Int),
    (before.length + (closingTag tag).length : Nat) - 1, before.length - 1] = sums at hself
  have hwalk : mapper.closing id tag ⟨before.length, 0⟩ =
      ((Walk.add 0 sums ⟨before.length + (closingTag tag).length, 0⟩).1,
        (mapper.span (.node id) .closingTag (closingTag tag).length ⟨before.length, 0⟩).2 ++
          (Walk.add 0 sums ⟨before.length + (closingTag tag).length, 0⟩).2) := by
    simp only [closing, Walk.andThen, hlength, hspan.1, hself]
  rw [hwalk]
  refine ⟨rfl, (List.append_nil _).trans hspan.2.1, fun mapped hmem => ?_⟩
  rcases List.mem_append.mp hmem with hmem | hmem
  · exact hspan.2.2 mapped hmem
  · exact nomatch hmem

/-- What can follow a tag without being taken for the needless closing tag of it. -/
def NoClosing (tag : String) (rest : List Char) : Prop :=
  lowercase (('>' :: rest).take ('>' :: closingTag tag).length) ≠ '>' :: closingTag tag

theorem keeps_needlessEnd {tag : String} (hnoClosing : NoClosing tag rest) :
    mapper.Keeps (mapper.needlessEnd tag) [] ('>' :: rest) := by
  intro before hsource
  have hslice : ∀ count, mapper.source.slice before.length count = ('>' :: rest).take count :=
    Source.slice_of_append hsource
  have hwalk : mapper.needlessEnd tag ⟨before.length, 0⟩ =
      Walk.add 0 [(before.length : Int)] ⟨before.length, 0⟩ := by
    simp only [needlessEnd, assigned_of_extra_zero, hslice]
    rw [if_neg (show ¬ ('>' :: rest).take 1 = ['/'] by simp), if_neg hnoClosing]
    rfl
  rw [hwalk]
  exact ⟨rfl, rfl, fun _ hmem => nomatch hmem⟩

theorem keeps_opening (hend : mapper.source.contentEnd = mapper.source.chars.length)
    (id : NodeId) {tag : String} {attributes : List Attribute}
    (hname : ∀ attr ∈ attributes, ∀ c, attr.name.toList.head? = some c → isBlank c = false)
    (hkept : keepsReferences tag = true → ∀ attr ∈ attributes, '&' ∉ attr.value.toList)
    (hnoClosing : mapper.closingTags tag = false → NoClosing tag rest) :
    mapper.Keeps (mapper.opening id tag attributes) (openingTag tag attributes) rest := by
  have hattributes : ∀ rest, mapper.Keeps (.all (attributes.map (mapper.attributeSpans id tag)))
      (attributes.flatMap attributeHtml) rest := by
    refine fun rest => keeps_all fun front attr back heq => ?_
    have hmem : attr ∈ attributes := by simp [heq]
    exact keeps_attribute hend id (hname attr hmem) (fun hkeeps => hkept hkeeps attr hmem) _
  have hneedless : mapper.Keeps (if mapper.closingTags tag then .stay else mapper.needlessEnd tag)
      [] ('>' :: rest) := by
    cases hclosing : mapper.closingTags tag with
    | true => exact keeps_stay mapper _
    | false => exact keeps_needlessEnd (hnoClosing hclosing)
  have hall : mapper.Keeps (mapper.opening id tag attributes)
      ('<' :: tag.toList ++ (attributes.flatMap attributeHtml ++ ([] ++ ([] ++ (['>'] ++ [])))))
        rest :=
    Keeps.andThen (keeps_span _ _ _ _ (length_marked '<' tag)) (Keeps.andThen (hattributes _)
      (Keeps.andThen (keeps_tagBlanks mapper rest) (Keeps.andThen hneedless
        (Keeps.andThen (keeps_span _ _ _ _ rfl) (keeps_stay mapper rest)))))
  rwa [List.nil_append, List.nil_append, List.append_nil, ← List.append_assoc] at hall

end Mapper

end Provenance.Markup
