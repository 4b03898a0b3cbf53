import Provenance.Proofs.Markup.Canonical
import Provenance.Proofs.Markup.Confined
import Provenance.Proofs.Markup.Passage
import Provenance.Proofs.Text.Blank

/-! # Tags as they were assigned

A tag can be assigned in any case, with blanks before its end, and an element can be ended by a
slash, by a closing tag that it does not need, or by its opening tag alone. It is written in one
way. The mapper only looks at a few characters at a time to tell what was assigned, and a slash it
only finds after it has passed over the closing tag that was added for it. But wherever an element
was assigned in one of these ways, each guess is right, and the mapper stands behind the element in
the end.
-/

namespace Provenance.Markup

open Provenance.Text (isBlank leadingBlanks lowercase lowercaseAfter_of_ascii leadingBlanks_take
  getElem?_take_blanks)

/-- How an element was ended. -/
inductive TagEnd where
  /-- By its opening tag. -/
  | plain
  /-- By a slash at the end of its opening tag. -/
  | slash
  /-- By a closing tag with a name. -/
  | closed (name : List Char)
  deriving DecidableEq, Repr

namespace TagEnd

def opening : TagEnd → List Char
  | slash => ['/', '>']
  | _ => ['>']

def closing : TagEnd → List Char
  | closed name => '<' :: '/' :: (name ++ ['>'])
  | _ => []

def name? : TagEnd → Option (List Char)
  | closed name => some name
  | _ => none

/-- What an element without a closing tag is not written with, before the last character. -/
def needless : TagEnd → List Char
  | plain => []
  | slash => ['/']
  | closed name => '>' :: '<' :: '/' :: name

theorem needless_append (ending : TagEnd) :
    ending.needless ++ ['>'] = ending.opening ++ ending.closing := by
  cases ending with
  | plain => rfl
  | slash => rfl
  | closed name => rfl

end TagEnd

/-- How the tags of an element were assigned. -/
structure TagSpelling where
  name : List Char
  /-- The blanks before the end of the opening tag. -/
  blanks : List Char
  ending : TagEnd
  deriving DecidableEq, Repr

/-- Whether an element can be assigned like this. Only an element that is written without a closing
    tag can be ended by its opening tag alone, and only one without children by a slash. -/
structure TagSpelling.Fits (spelling : TagSpelling) (tag : String) (childless : Prop) : Prop where
  name : spelling.name.map Char.toLower = tag.toList
  blanks : ∀ c ∈ spelling.blanks, isBlank c = true
  blanks_le : spelling.blanks.length ≤ 198
  plain : spelling.ending = .plain → isVoid tag = true
  slash : spelling.ending = .slash → childless
  closed : ∀ name ∈ spelling.ending.name?, name.map Char.toLower = tag.toList

instance (spelling : TagSpelling) (tag : String) (childless : Prop) [Decidable childless] :
    Decidable (spelling.Fits tag childless) :=
  decidable_of_iff (spelling.name.map Char.toLower = tag.toList ∧
      spelling.blanks.all isBlank = true ∧ spelling.blanks.length ≤ 198 ∧
      (spelling.ending = .plain → isVoid tag = true) ∧ (spelling.ending = .slash → childless) ∧
      ∀ name ∈ spelling.ending.name?, name.map Char.toLower = tag.toList) (by
    rw [List.all_eq_true]
    exact ⟨fun ⟨h₁, h₂, h₃, h₄, h₅, h₆⟩ => ⟨h₁, h₂, h₃, h₄, h₅, h₆⟩,
      fun ⟨h₁, h₂, h₃, h₄, h₅, h₆⟩ => ⟨h₁, h₂, h₃, h₄, h₅, h₆⟩⟩)

namespace TagSpelling.Fits

variable {spelling : TagSpelling} {tag : String} {childless : Prop} {name : List Char}

theorem length_name (hfits : spelling.Fits tag childless) : spelling.name.length = tag.length := by
  rw [← String.length_toList, ← hfits.name, List.length_map]

theorem closing_name (hfits : spelling.Fits tag childless) (h : spelling.ending = .closed name) :
    name.map Char.toLower = tag.toList := hfits.closed name (by rw [h]; rfl)

theorem length_closing_name (hfits : spelling.Fits tag childless)
    (h : spelling.ending = .closed name) : name.length = tag.length := by
  rw [← String.length_toList, ← hfits.closing_name h, List.length_map]

end TagSpelling.Fits

/-- A text without characters that are escaped is written as it is, in raw text and elsewhere. -/
theorem escapeText_of_plain (parentTag : String) {content : List Char}
    (hplain : ∀ c ∈ content, c ∉ ['&', '<', '>', '\u00a0']) :
    escapeText parentTag content = content := by
  have hself : ∀ c ∈ content, escapeTextChar c = [c] := by
    intro c hchar
    have hnot := hplain c hchar
    simp only [List.mem_cons, List.not_mem_nil, or_false, not_or] at hnot
    obtain ⟨hamp, hless, hgreater, hspace⟩ := hnot
    simp only [escapeTextChar, if_neg hamp, if_neg hspace, if_neg hless, if_neg hgreater]
  rw [escapeText, List.flatMap_congr hself, List.flatMap_singleton', ite_self]

/-- A text without ampersands has no references, whatever follows it. -/
theorem Source.whole_of_not_mem {text rest : List Char} (h : '&' ∉ text) :
    Source.Whole text rest := by
  intro suffix hsuffix hne
  obtain ⟨c, tail, rfl⟩ := List.exists_cons_of_ne_nil hne
  have hchar : c ≠ '&' := by
    rintro rfl
    exact h (hsuffix.subset List.mem_cons_self)
  rw [List.cons_append, referenceLength?_of_head hchar, referenceLength?_of_head hchar]

theorem harmless_of_second {c : Char} {tail : List Char} (hchar : c ≠ '/') :
    Harmless ('<' :: c :: tail) :=
  fun _ _ _ => noClosing_of_not_prefix fun ⟨_, heq⟩ =>
    hchar (List.cons.inj (List.cons.inj heq).2).1.symm

/-- The beginning of an opening tag is never taken for a closing tag that is not needed. -/
theorem harmless_of_opening {name blanks : List Char} (hname : ∀ c ∈ name, c ≠ '/')
    (hblanks : ∀ c ∈ blanks, isBlank c = true) (ending : TagEnd) (more : List Char) :
    Harmless ('<' :: (name ++ (blanks ++ (ending.opening ++ more)))) := by
  cases name with
  | cons c name => exact harmless_of_second (hname c List.mem_cons_self)
  | nil =>
      cases blanks with
      | cons c blanks =>
          refine harmless_of_second ?_
          rintro rfl
          exact absurd (hblanks '/' List.mem_cons_self) (by decide)
      | nil =>
          cases ending with
          | plain => exact harmless_of_second (by decide)
          | closed name => exact harmless_of_second (by decide)
          | slash =>
              -- A tag without a name, which is none of those without a closing tag.
              exact @harmless_of_name "" [] more (by decide) (fun c hchar => nomatch hchar) rfl

namespace Mapper

variable {mapper : Mapper .checked} {tag : String} {blanks name rest : List Char}

/-- The blanks before the end of an opening tag are dropped. -/
theorem reads_tagBlanks (hblanks : ∀ c ∈ blanks, isBlank c = true) (hle : blanks.length ≤ 198)
    (ending : TagEnd) (rest : List Char) :
    mapper.Reads mapper.tagBlanks (.unled blanks 0) (ending.opening ++ rest) := by
  intro before cursor hsource hcursor _
  refine readsAt_drop [cursor.assigned] ?_ hcursor
  have hslice : mapper.source.slice cursor.assigned 200 =
      (blanks ++ (ending.opening ++ rest)).take 200 := by
    rw [hcursor]
    exact Source.slice_of_append hsource 200
  have hhead : ∀ c, (ending.opening ++ rest).head? = some c → isBlank c = false := by
    intro c hnext
    cases ending with
    | slash => obtain rfl := Option.some.inj hnext; decide
    | plain => obtain rfl := Option.some.inj hnext; decide
    | closed name => obtain rfl := Option.some.inj hnext; decide
  have hcount := leadingBlanks_take hblanks hhead (show blanks.length ≤ 200 by omega)
  have hfirst : ((blanks ++ (ending.opening ++ rest)).take 200)[blanks.length]? = _ :=
    getElem?_take_blanks (by omega)
  have hsecond : ending = .slash →
      ((blanks ++ (ending.opening ++ rest)).take 200)[blanks.length + 1]? = some '>' := by
    rintro rfl
    have hget : ((blanks ++ ['/'] ++ '>' :: rest).take 200)[(blanks ++ ['/']).length]? = _ :=
      getElem?_take_blanks (by rw [List.length_append, List.length_singleton]; omega)
    rwa [List.length_append, List.append_assoc] at hget
  simp only [tagBlanks, hslice, hcount]
  refine congrArg (fun count => Walk.add count [cursor.assigned] cursor) (if_pos ?_)
  rw [Bool.or_eq_true, Bool.and_eq_true, decide_eq_true_eq, decide_eq_true_eq, decide_eq_true_eq,
    hfirst]
  cases ending with
  | plain => exact .inl rfl
  | closed name => exact .inl rfl
  | slash => exact .inr ⟨rfl, hsecond rfl⟩

/-- What an element without a closing tag was needlessly assigned with is dropped. -/
theorem reads_needlessEnd {ending : TagEnd} (hnoClosing : NoClosing tag rest)
    (htag : ∀ c ∈ tag.toList, isTagChar c = true)
    (hclosed : ∀ name ∈ ending.name?, name.map Char.toLower = tag.toList) :
    mapper.Reads (mapper.needlessEnd tag) (.unled ending.needless 0) ('>' :: rest) := by
  intro before cursor hsource hcursor _
  refine readsAt_drop [cursor.assigned] ?_ hcursor
  have hslice : ∀ count, mapper.source.slice cursor.assigned count =
      (ending.needless ++ '>' :: rest).take count := by
    rw [hcursor]
    exact Source.slice_of_append hsource
  simp only [needlessEnd, hslice]
  cases ending with
  | slash => rfl
  | plain =>
      -- Only `rest` could be taken for a closing tag, and it is not.
      rw [if_neg (show ¬ (TagEnd.plain.needless ++ '>' :: rest).take 1 = ['/'] by
        simp [TagEnd.needless])]
      exact congrArg (fun dropped : Int => Walk.add (-dropped) [cursor.assigned] cursor)
        (if_neg hnoClosing)
  | closed name =>
      -- The end of the opening tag with the closing tag behind it, as it is compared in lower case.
      let explicit := '>' :: '<' :: '/' :: (name ++ ['>'])
      have hname := hclosed name rfl
      have hascii : ∀ c ∈ explicit, c.toNat < 0x80 := by
        simp only [explicit, List.mem_cons, List.mem_append, List.not_mem_nil, or_false]
        rintro c (rfl | rfl | rfl | hchar | rfl)
        · decide
        · decide
        · decide
        · exact ascii_of_isTagChar (htag _ (hname ▸ List.mem_map_of_mem hchar))
        · decide
      have hlower : lowercase explicit = '>' :: closingTag tag := by
        rw [lowercase, lowercaseAfter_of_ascii hascii]
        simp only [explicit, List.map_cons, List.map_append, hname, List.map_nil]
        rfl
      have hlength : ('>' :: closingTag tag).length = explicit.length := by
        rw [← hlower, lowercase, lowercaseAfter_of_ascii hascii, List.length_map]
      have htext : (TagEnd.closed name).needless ++ '>' :: rest = explicit ++ rest := by
        simp [TagEnd.needless, explicit]
      have hdropped : (explicit.length : Int) - 1 = (TagEnd.closed name).needless.length := by
        simp [TagEnd.needless, explicit]
      rw [htext, if_neg (show ¬ (explicit ++ rest).take 1 = ['/'] by simp [explicit]), hlength,
        List.take_left, if_pos hlower, hdropped]

variable {spelling : TagSpelling} {childless : Prop}

/-- An opening tag, up to a character that is taken for its end; `dropped` is what the mapper drops
    before it. -/
theorem reads_opening (id : NodeId) (hfits : spelling.Fits tag childless) (dropped : List Char)
    (last : Char) (hdropped : mapper.Reads
      (if mapper.closingTags tag then .stay else mapper.needlessEnd tag) (.unled dropped 0)
        (last :: rest))
    {more : List Char} (hends : dropped ++ last :: rest = spelling.ending.opening ++ more) :
    mapper.Reads (mapper.opening id tag [])
      (.same ('<' :: spelling.name) ++ .unled (spelling.blanks ++ (dropped ++ [last])) 1) rest := by
  have hend : mapper.Reads (.all [mapper.span (.node id) .openingTagEnd 1]) (.unled [last] 1)
      rest := by
    have hspan := (mapper.reads_span (.node id) .openingTagEnd [last] rest rfl).unled
    have hall := hspan.andThen (mapper.reads_stay rest)
    rwa [Passage.length_leads_same, Passage.append_empty] at hall
  have htail := hdropped.andThen hend
  rw [Passage.unled_append, Nat.zero_add] at htail
  have hblanks : mapper.Reads mapper.tagBlanks (.unled spelling.blanks 0)
      ((Passage.unled (dropped ++ [last]) 1).source ++ rest) := by
    have hsource : (Passage.unled (dropped ++ [last]) 1).source ++ rest =
        spelling.ending.opening ++ more := by
      rw [← hends]
      simp [Passage.unled]
    rw [hsource]
    exact mapper.reads_tagBlanks hfits.blanks hfits.blanks_le spelling.ending more
  have hinside := hblanks.andThen htail
  rw [Passage.unled_append, Nat.zero_add] at hinside
  have hattributes := (mapper.reads_stay _).andThen hinside
  rw [Passage.empty_append] at hattributes
  have hlength : 1 + tag.length = ('<' :: spelling.name).length := by
    rw [List.length_cons, hfits.length_name, Nat.add_comm]
  exact (mapper.reads_span _ _ _ _ hlength).andThen hattributes

/-- Before anything but the end of a tag there is no slash that ends one. -/
theorem slice_before_ne {before : List Char} {c : Char} (hchar : c ≠ '>')
    (hsource : mapper.source.chars = before ++ c :: rest) :
    mapper.source.slice ((before.length : Int) - 1) 2 ≠ ['/', '>'] := by
  rcases List.eq_nil_or_concat before with rfl | ⟨front, d, rfl⟩
  · exact fun hslice => nomatch hslice
  · have hsplit : mapper.source.chars = front ++ (d :: c :: rest) := by
      rw [hsource]
      simp
    have hlength : (((front ++ [d]).length : Nat) : Int) - 1 = front.length := by simp
    rw [List.concat_eq_append, hlength, Source.slice_of_append hsplit]
    exact fun hslice => hchar (List.cons.inj (List.cons.inj hslice).2).1

theorem reads_closing (id : NodeId) (hname : name.length = tag.length) (rest : List Char) :
    mapper.Reads (mapper.closing id tag) (.same (TagEnd.closed name).closing) rest := by
  intro before cursor hsource hcursor hend
  have hlength : 3 + tag.length = (TagEnd.closed name).closing.length := by
    simp only [TagEnd.closing, List.length_cons, List.length_append, List.length_nil, hname]
    omega
  have hspan := mapper.reads_span (.node id) .closingTag (TagEnd.closed name).closing rest hlength
    before cursor hsource hcursor hend
  let behind := (mapper.span (.node id) .closingTag (3 + tag.length) cursor).1
  have hbehind : behind.assigned - 1 - (3 + tag.length : Nat) = before.length - 1 := by
    have hassigned : behind.assigned = _ := hspan.assigned
    rw [hassigned, hlength]
    simp only [Passage.same]
    omega
  -- Counted back from behind the tag, the slash would stand right before its beginning.
  let sums := [behind.assigned, behind.assigned - 1, behind.assigned - 1 - (3 + tag.length : Nat)]
  have hopen : mapper.selfClosed (3 + tag.length) behind = Walk.add 0 sums behind := by
    have hslice := slice_before_ne (by decide : '<' ≠ '>') hsource
    rw [← hbehind] at hslice
    exact congrArg (fun count => Walk.add count sums behind) (if_neg hslice)
  have hnone : mapper.ReadsAt (mapper.selfClosed (3 + tag.length)) (.unled [] 0) _ behind :=
    readsAt_drop sums hopen hspan.assigned
  exact (Passage.append_empty (.same (TagEnd.closed name).closing)) ▸ hspan.andThen hnone

/-- A closing tag that was added is found out behind the slash that it was added for. -/
theorem readsAt_closing_of_slash (id : NodeId) (tag : String) {before : List Char} {cursor : Cursor}
    (hsource : mapper.source.chars = before ++ '/' :: '>' :: rest)
    (hcursor : cursor.assigned = (before.length + 1 : Nat)) :
    mapper.ReadsAt (mapper.closing id tag) (.unled ['>'] (3 + tag.length)) (before.length + 1)
      cursor := by
  have hslice : mapper.source.slice (cursor.assigned - 1) 2 = ['/', '>'] := by
    rw [hcursor, show ((before.length + 1 : Nat) : Int) - 1 = before.length by omega]
    exact Source.slice_of_append hsource 2
  refine ⟨?_, ?_, rfl, fun k place hentry => ?_⟩
  · rw [Passage.unled, List.length_replicate]
    rfl
  · rw [assigned_closing, if_pos hslice, hcursor]
    rfl
  · cases List.eq_of_mem_replicate (List.mem_of_getElem? hentry)

theorem reads_plain_text (hend : mapper.source.contentEnd = mapper.source.chars.length)
    (id : NodeId) (parentTag : String) {content : String}
    (hplain : ∀ c ∈ content.toList, c ∉ ['&', '<', '>', '\u00a0']) :
    mapper.Reads (mapper.text id parentTag content) (.same content.toList) rest := by
  have hwritten := escapeText_of_plain parentTag hplain
  have hnone : '&' ∉ content.toList := fun hchar => hplain '&' hchar (by decide)
  refine mapper.reads_text_of_table id (by rw [Passage.length_leads_same, hwritten])
    fun before hsource _ => ?_
  have htable : mapper.source.table parentTag content.toList before.length =
      (List.replicate content.toList.length 0, 0) :=
    Source.corrections_of_same hend hsource (Source.whole_of_not_mem hnone)
      fun _ => Source.noEscapedAmpersand_of_not_mem hnone
  rw [hwritten, htable, Passage.length_leads_same]
  refine ⟨(Int.sub_self _).symm, fun k place hentry => ?_⟩
  obtain ⟨hlt, -⟩ := List.getElem?_eq_some_iff.mp hentry
  rw [Passage.length_leads_same] at hlt
  rw [Passage.leads_same hlt] at hentry
  obtain rfl : k = place := Option.some.inj (Option.some.inj hentry)
  exact ⟨Nat.le_of_lt hlt, by rw [List.getElem?_replicate_of_lt hlt, Int.sub_self]⟩

/-- An element without a closing tag, however it was ended. -/
theorem reads_unclosed (id : NodeId) (hfits : spelling.Fits tag childless)
    (hclosing : mapper.closingTags tag = false) (htag : ∀ c ∈ tag.toList, isTagChar c = true)
    (hnoClosing : NoClosing tag rest) :
    mapper.Reads (mapper.opening id tag []) (.same ('<' :: spelling.name) ++
      .unled (spelling.blanks ++ (spelling.ending.opening ++ spelling.ending.closing)) 1) rest := by
  have hdropped : mapper.Reads
      (if mapper.closingTags tag then .stay else mapper.needlessEnd tag)
        (.unled spelling.ending.needless 0) ('>' :: rest) := by
    rw [hclosing]
    exact mapper.reads_needlessEnd hnoClosing htag hfits.closed
  have hends : spelling.ending.needless ++ '>' :: rest =
      spelling.ending.opening ++ (spelling.ending.closing ++ rest) := by
    rw [← List.append_assoc, ← TagEnd.needless_append, List.append_assoc]
    rfl
  have hread := mapper.reads_opening id hfits _ '>' hdropped hends
  rwa [TagEnd.needless_append] at hread

/-- The opening tag of an element that is written with a closing tag, up to its end or the slash
    before it. -/
theorem reads_closed_opening (id : NodeId) (hfits : spelling.Fits tag childless)
    (hclosing : mapper.closingTags tag = true) (last : Char) {more : List Char}
    (hends : last :: rest = spelling.ending.opening ++ more) :
    mapper.Reads (mapper.opening id tag [])
      (.same ('<' :: spelling.name) ++ .unled (spelling.blanks ++ [last]) 1) rest := by
  refine mapper.reads_opening id hfits [] last ?_ hends
  rw [hclosing]
  exact mapper.reads_stay _

theorem reads_closed (id : NodeId) (hfits : spelling.Fits tag childless)
    (hclosing : mapper.closingTags tag = true) (hending : spelling.ending = .closed name)
    {between : Walk} {inner : Passage}
    (hbetween : mapper.Reads between inner (spelling.ending.closing ++ rest)) :
    mapper.Reads ((mapper.opening id tag []).andThen (.all [between, mapper.closing id tag]))
      (.same ('<' :: spelling.name) ++ (.unled (spelling.blanks ++ spelling.ending.opening) 1 ++
        (inner ++ .same spelling.ending.closing))) rest := by
  have hlength := hfits.length_closing_name hending
  rw [hending] at hbetween ⊢
  have hopening : mapper.Reads (mapper.opening id tag []) _
      ((inner ++ .same (TagEnd.closed name).closing).source ++ rest) :=
    mapper.reads_closed_opening id hfits hclosing '>' (by rw [hending]; rfl)
  have hclose := (mapper.reads_closing id hlength rest).andThen (mapper.reads_stay rest)
  rw [Passage.append_empty] at hclose
  rw [← Passage.append_assoc]
  exact hopening.andThen (hbetween.andThen hclose)

/-- An element with a slash, which the mapper finds when it has passed over the closing tag. -/
theorem reads_slashed (id : NodeId) (hfits : spelling.Fits tag childless)
    (hclosing : mapper.closingTags tag = true) (hending : spelling.ending = .slash)
    {between : Walk} (hbetween : mapper.Reads between .empty ('>' :: rest)) :
    mapper.Reads ((mapper.opening id tag []).andThen (.all [between, mapper.closing id tag]))
      (.same ('<' :: spelling.name) ++ .unled (spelling.blanks ++ spelling.ending.opening)
        (1 + (3 + tag.length))) rest := by
  let front : Passage := .same ('<' :: spelling.name) ++ .unled (spelling.blanks ++ ['/']) 1
  have hopening : mapper.Reads (mapper.opening id tag []) front ('>' :: rest) :=
    mapper.reads_closed_opening id hfits hclosing '/' (by rw [hending]; rfl)
  have hpassage : .same ('<' :: spelling.name) ++ .unled (spelling.blanks ++
      spelling.ending.opening) (1 + (3 + tag.length)) =
        front ++ .unled ['>'] (3 + tag.length) := by
    rw [hending, Passage.append_assoc, Passage.unled_append, List.append_assoc]
    rfl
  rw [hpassage]
  refine hopening.andThen_at fun before cursor hsource hcursor hend => ?_
  have hinside : (before.length + front.source.length : Nat) ≤ mapper.source.contentEnd :=
    Int.le_trans (Int.ofNat_le.mpr (Nat.le_add_right _ _)) hend
  rw [← List.length_append] at hcursor hinside
  have hbehind := hbetween (before ++ front.source) cursor hsource hcursor hinside
  -- The slash is the last character before the place that the closing tag is taken for.
  let slashed := before ++ '<' :: (spelling.name ++ spelling.blanks)
  have hslash : mapper.source.chars = slashed ++ '/' :: '>' :: rest := by
    rw [hsource]
    simp [front, slashed, Passage.same, Passage.unled]
  have hlength : (before ++ front.source).length = slashed.length + 1 := by
    have hchars : before ++ front.source = slashed ++ ['/'] := by
      simp [front, slashed, Passage.same, Passage.unled]
    rw [hchars, List.length_append, List.length_singleton]
  rw [← List.length_append, hlength]
  rw [hlength] at hbehind
  have hclose := mapper.readsAt_closing_of_slash id tag hslash hbehind.assigned
  have hall := hbehind.andThen (hclose.andThen (readsAt_stay hclose.assigned))
  rwa [Passage.append_empty, Passage.empty_append] at hall

end Mapper

end Provenance.Markup
