import Provenance.Proofs.Markup.Spelling
import Provenance.Proofs.Text.Lowercase

/-! # The walk only moves forward

The mapper skips what the serialization dropped and waits where it added something, but it
never goes back: no stretch of the walk lowers the position in the assigned string. Nor does
it run ahead on its own. Where it skips more than it writes, the skipped characters are there,
so it passes the end of the assigned string only by characters that are written.
-/

namespace Provenance.Markup

open Provenance.Text (leadingBlanks lowercase length_lowercaseAfter_le)

namespace Walk

/-- What relates stretches pair by pair relates all of them, one after another. -/
theorem all_related {R : Walk → Walk → Prop} (hstay : R .stay .stay)
    (handThen : ∀ {a b a' b' : Walk}, R a a' → R b b' → R (a.andThen b) (a'.andThen b'))
    {items : List α} {walks walks' : α → Walk}
    (h : ∀ item ∈ items, R (walks item) (walks' item)) :
    R (.all (items.map walks)) (.all (items.map walks')) := by
  induction items with
  | nil => exact hstay
  | cons item items ih =>
      exact handThen (h item List.mem_cons_self)
        (ih fun other hmem => h other (List.mem_cons_of_mem item hmem))

theorem all_of {P : Walk → Prop} (hstay : P .stay)
    (handThen : ∀ {first second : Walk}, P first → P second → P (first.andThen second))
    {items : List α} {walks : α → Walk} (h : ∀ item ∈ items, P (walks item)) :
    P (.all (items.map walks)) := by
  apply @all_related α (fun walk _ => P walk) hstay handThen items walks walks
  exact h

end Walk

/-- Whether a cursor stands at or behind another one on both sides. -/
structure Cursor.Follows (a b : Cursor) : Prop where
  written : a.written ≤ b.written
  assigned : a.assigned ≤ b.assigned

namespace Cursor

variable {a b c : Cursor}

theorem Follows.refl (a : Cursor) : a.Follows a := ⟨Nat.le_refl _, Int.le_refl _⟩

theorem Follows.trans (hab : a.Follows b) (hbc : b.Follows c) : a.Follows c :=
  ⟨Nat.le_trans hab.written hbc.written, Int.le_trans hab.assigned hbc.assigned⟩

end Cursor

namespace Mapper

variable {build build' : Build}

/-- Whether a relation of stretches holds of the parts of the walks of two mappers over the same
    tree, and passes from stretches to what they make up, one after another. An opening tag is one
    of the parts wherever the fragment has the element, and the closing tag comes with it. -/
structure Parallel (first : Mapper build) (second : Mapper build') (R : Walk → Walk → Prop) :
    Prop where
  fragment : second.fragment = first.fragment
  closingTags : second.closingTags = first.closingTags
  ignored : second.ignored = first.ignored
  stay : R .stay .stay
  andThen {a b a' b' : Walk} : R a a' → R b b' → R (a.andThen b) (a'.andThen b')
  skip (count : Nat) : R (.skip count) (.skip count)
  advance (count : Nat) : R (.advance count) (.advance count)
  childless (tag : String) :
    R (.mismatch build (.childrenOfUnclosed tag)) (.mismatch build' (.childrenOfUnclosed tag))
  mark (id : NodeId) : R (first.mark id) (second.mark id)
  text (id : NodeId) (parentTag content : String) :
    R (first.text id parentTag content) (second.text id parentTag content)
  comment (id : NodeId) (content : String) :
    R (first.comment id content) (second.comment id content)
  opening {id : NodeId} {node : Node} {tag : String} {attributes : List Attribute} :
    first.fragment.get? id = some node → node.kind = .element tag attributes →
      R (first.opening id tag attributes) (second.opening id tag attributes)
  closed {id : NodeId} {node : Node} {tag : String} {attributes : List Attribute}
    {inner inner' : Walk} : first.fragment.get? id = some node →
      node.kind = .element tag attributes → R inner inner' →
        R ((first.opening id tag attributes).andThen (.all [inner, first.closing id tag]))
          ((second.opening id tag attributes).andThen (.all [inner', second.closing id tag]))

namespace Parallel

variable {first : Mapper build} {second : Mapper build'} {R : Walk → Walk → Prop}

theorem all (h : Parallel first second R) {items : List α} {walks walks' : α → Walk}
    (hall : ∀ item ∈ items, R (walks item) (walks' item)) :
    R (.all (items.map walks)) (.all (items.map walks')) :=
  Walk.all_related h.stay h.andThen hall

/-- What holds of the parts holds of every node. -/
theorem node (h : Parallel first second R) (depth : Nat) (parentTag : String) (id : NodeId) :
    R (first.node depth parentTag id) (second.node depth parentTag id) := by
  induction depth generalizing parentTag id with
  | zero => exact h.stay
  | succ depth ih =>
      simp only [Mapper.node, h.fragment, h.closingTags, h.ignored]
      split
      · exact h.skip _
      · cases hnode : first.fragment.get? id with
        | none => exact h.stay
        | some node =>
            cases hkind : node.kind with
            | text content => simpa only [hkind] using h.text id parentTag content
            | comment content => simpa only [hkind] using h.comment id content
            | element tag attributes =>
                simp only [hkind]
                split
                · refine h.closed hnode hkind ?_
                  split
                  · exact h.advance _
                  · exact h.andThen (h.mark id) (h.all fun child _ => ih tag child)
                · refine h.andThen (h.opening hnode hkind) ?_
                  split
                  · exact h.stay
                  · exact h.childless tag

theorem content (h : Parallel first second R) (container : NodeId) :
    R (first.content container) (second.content container) := by
  simp only [Mapper.content, h.fragment]
  exact h.andThen (h.mark container) (h.all fun child _ => h.node _ _ child)

end Parallel

/-- Whether a property of stretches holds of the parts of every walk and passes from two stretches
    to both, one after another. An opening tag is one of the parts wherever the fragment has the
    element. -/
structure Composes (mapper : Mapper build) (P : Walk → Prop) : Prop where
  stay : P .stay
  andThen {first second : Walk} : P first → P second → P (first.andThen second)
  skip (count : Nat) : P (.skip count)
  advance (count : Nat) : P (.advance count)
  mismatch (cause : Mismatch) : P (.mismatch build cause)
  mark (id : NodeId) : P (mapper.mark id)
  text (id : NodeId) (parentTag content : String) : P (mapper.text id parentTag content)
  comment (id : NodeId) (content : String) : P (mapper.comment id content)
  opening {id : NodeId} {node : Node} {tag : String} {attributes : List Attribute} :
    mapper.fragment.get? id = some node → node.kind = .element tag attributes →
      P (mapper.opening id tag attributes)
  closing (id : NodeId) (tag : String) : P (mapper.closing id tag)

namespace Composes

variable {mapper : Mapper build} {P : Walk → Prop}

/-- A property is a relation of a walk to itself. -/
theorem parallel (h : mapper.Composes P) : Parallel mapper mapper fun walk _ => P walk where
  fragment := rfl
  closingTags := rfl
  ignored := rfl
  stay := h.stay
  andThen := h.andThen
  skip := h.skip
  advance := h.advance
  childless _ := h.mismatch _
  mark := h.mark
  text := h.text
  comment := h.comment
  opening := h.opening
  closed hnode hkind hinner :=
    h.andThen (h.opening hnode hkind) (h.andThen hinner (h.andThen (h.closing _ _) h.stay))

/-- What holds of the parts holds of every node. -/
theorem node (h : mapper.Composes P) (depth : Nat) (parentTag : String) (id : NodeId) :
    P (mapper.node depth parentTag id) := h.parallel.node depth parentTag id

theorem content (h : mapper.Composes P) (container : NodeId) : P (mapper.content container) :=
  h.parallel.content container

end Composes

/-- Whether a cursor stands at or behind another one on both sides, and passes the end of the
    assigned string only by characters that are written. -/
structure Onward (mapper : Mapper .checked) (a b : Cursor) : Prop where
  written : a.written ≤ b.written
  assigned : a.assigned ≤ b.assigned
  bounded : b.assigned + a.written ≤ max a.assigned mapper.source.chars.length + b.written

variable {mapper : Mapper .checked} {a b c : Cursor}

theorem Onward.refl (mapper : Mapper .checked) (a : Cursor) : mapper.Onward a a :=
  ⟨Nat.le_refl _, Int.le_refl _, by omega⟩

theorem Onward.trans (hab : mapper.Onward a b) (hbc : mapper.Onward b c) : mapper.Onward a c := by
  obtain ⟨hwritten, hassigned, hbounded⟩ := hab
  obtain ⟨hwritten', hassigned', hbounded'⟩ := hbc
  exact ⟨Nat.le_trans hwritten hwritten', Int.le_trans hassigned hassigned', by omega⟩

theorem Onward.follows (h : mapper.Onward a b) : a.Follows b := ⟨h.written, h.assigned⟩

/-- Whether a stretch only moves forward. -/
def Advances (mapper : Mapper .checked) (walk : Walk) : Prop :=
  ∀ cursor, mapper.Onward cursor (walk cursor).1

variable {first second : Walk}

theorem advances_stay (mapper : Mapper .checked) : mapper.Advances .stay := Onward.refl mapper

theorem advances_mismatch (mapper : Mapper .checked) (cause : Mismatch) :
    mapper.Advances (.mismatch .checked cause) := Onward.refl mapper

theorem advances_emit (mapper : Mapper .checked) (target : Target) (action : Action)
    (length : Nat) : mapper.Advances (mapper.emit target action length) := Onward.refl mapper

theorem advances_advance (mapper : Mapper .checked) (count : Nat) :
    mapper.Advances (.advance count) := by
  intro cursor
  constructor <;> simp only [Walk.advance, Cursor.assigned] <;> omega

theorem advances_skip (mapper : Mapper .checked) (count : Nat) : mapper.Advances (.skip count) := by
  intro cursor
  constructor <;> simp only [Walk.skip, Cursor.assigned] <;> omega

theorem Advances.andThen (hfirst : mapper.Advances first) (hsecond : mapper.Advances second) :
    mapper.Advances (first.andThen second) :=
  fun cursor => (hfirst cursor).trans (hsecond (first cursor).1)

theorem advances_span (mapper : Mapper .checked) (target : Target) (action : Action)
    (length : Nat) : mapper.Advances (mapper.span target action length) :=
  (advances_emit mapper target action length).andThen (advances_advance mapper length)

theorem advances_text (mapper : Mapper .checked) (id : NodeId) (parentTag content : String) :
    mapper.Advances (mapper.text id parentTag content) := by
  intro cursor
  obtain ⟨hle, hend⟩ := mapper.source.corrections_bounds (keepsReferences parentTag)
    (escapeText parentTag content.toList) 0 cursor.assigned 0
  constructor <;> simp only [text, Source.table, Cursor.assigned] at hle hend ⊢ <;> omega

theorem advances_comment (mapper : Mapper .checked) (id : NodeId) (content : String) :
    mapper.Advances (mapper.comment id content) := by
  exact (mapper.advances_span _ _ _).andThen ((mapper.advances_span _ _ _).andThen
    ((mapper.advances_span _ _ _).andThen mapper.advances_stay))

theorem advances_attribute (mapper : Mapper .checked) (id : NodeId) (tag : String)
    (attr : Attribute) : mapper.Advances (mapper.attributeSpans id tag attr) := by
  intro cursor
  obtain ⟨hle, hend⟩ := mapper.spelling_bounds tag attr cursor.assigned
  constructor <;> simp only [attributeSpans, Cursor.assigned] at hle hend ⊢ <;> omega

theorem written_add (count : Int) (sums : List Int) (cursor : Cursor) :
    (Walk.add count sums cursor).1.written = cursor.written := rfl

theorem assigned_add (count : Int) (sums : List Int) (cursor : Cursor) :
    (Walk.add count sums cursor).1.assigned = cursor.assigned - count := by
  simp only [Walk.add, Cursor.assigned]
  omega

/-- Dropping characters that are there moves forward. -/
theorem onward_drop {dropped : Nat} {cursor : Cursor}
    (h : dropped = 0 ∨ cursor.assigned + dropped ≤ mapper.source.chars.length)
    (sums : List Int) : mapper.Onward cursor (Walk.add (-(dropped : Int)) sums cursor).1 := by
  constructor
  · exact Nat.le_refl _
  · rw [assigned_add]
    omega
  · rw [written_add, assigned_add]
    omega

theorem advances_tagBlanks (mapper : Mapper .checked) : mapper.Advances mapper.tagBlanks := by
  intro cursor
  have hblanks := mapper.add_leadingBlanks_le cursor.assigned 200
  obtain ⟨dropped, hdropped, hwalk⟩ : ∃ dropped : Nat,
      (dropped = 0 ∨ cursor.assigned + dropped ≤ mapper.source.chars.length) ∧
        mapper.tagBlanks cursor = Walk.add (-(dropped : Int)) [cursor.assigned] cursor := by
    by_cases hends : (mapper.source.slice cursor.assigned 200)[leadingBlanks
        (mapper.source.slice cursor.assigned 200)]? = some '>' ∨
        (mapper.source.slice cursor.assigned 200)[leadingBlanks
          (mapper.source.slice cursor.assigned 200)]? = some '/' ∧
        (mapper.source.slice cursor.assigned 200)[leadingBlanks
          (mapper.source.slice cursor.assigned 200) + 1]? = some '>'
    · exact ⟨_, hblanks, by simp only [tagBlanks]; rw [if_pos (by simpa using hends)]⟩
    · exact ⟨0, .inl rfl, by simp only [tagBlanks]; rw [if_neg (by simpa using hends)]; rfl⟩
  rw [hwalk]
  exact onward_drop hdropped _

/-- The end of a tag that has no closing tag may be dropped with its name. The name has been
    written before, so this alone does not run ahead. -/
theorem needlessEnd_bounds (mapper : Mapper .checked) (tag : String) (cursor : Cursor) :
    (mapper.needlessEnd tag cursor).1.written = cursor.written ∧
      cursor.assigned ≤ (mapper.needlessEnd tag cursor).1.assigned ∧
        (mapper.needlessEnd tag cursor).1.assigned ≤
          max cursor.assigned (mapper.source.chars.length + tag.length + 1) := by
  have hexplicit : ('>' :: closingTag tag).length = tag.length + 4 := by
    rw [List.length_cons, ← length_closingTag]
    omega
  obtain ⟨dropped, hdropped, hwalk⟩ : ∃ dropped : Nat,
      (dropped = 0 ∨ cursor.assigned + dropped ≤ mapper.source.chars.length + tag.length + 1) ∧
        mapper.needlessEnd tag cursor =
          Walk.add (-(dropped : Int)) [cursor.assigned] cursor := by
    simp only [needlessEnd]
    by_cases hslash : mapper.source.slice cursor.assigned 1 = ['/']
    · have hlength : 1 ≤ (mapper.source.slice cursor.assigned 1).length := by
        rw [hslash]
        exact Nat.le_refl 1
      have hthere := (Source.add_le_of_slice Nat.one_pos hlength).2
      rw [if_pos hslash]
      exact ⟨1, .inr (by omega), rfl⟩
    · rw [if_neg hslash]
      by_cases hclosing : lowercase (mapper.source.slice cursor.assigned
          ('>' :: closingTag tag).length) = '>' :: closingTag tag
      · -- Lower case at most doubles a text, so more than one character of the tag is there.
        have hlower := length_lowercaseAfter_le []
          (mapper.source.slice cursor.assigned ('>' :: closingTag tag).length)
        rw [← lowercase, hclosing, hexplicit] at hlower
        have hlength : 2 ≤ (mapper.source.slice cursor.assigned (tag.length + 4)).length := by
          omega
        have hthere := (Source.add_le_of_slice Nat.two_pos hlength).2
        rw [if_pos hclosing, hexplicit]
        exact ⟨tag.length + 3, .inr (by omega), by congr 1; omega⟩
      · rw [if_neg hclosing]
        exact ⟨0, .inl rfl, rfl⟩
  rw [hwalk, written_add, assigned_add]
  omega

/-- The name of a tag is written before a needless end is dropped with it. -/
theorem advances_opening (mapper : Mapper .checked) (id : NodeId) (tag : String)
    (attributes : List Attribute) : mapper.Advances (mapper.opening id tag attributes) := by
  intro start
  let named := (mapper.span (.node id) .openingTagStart (1 + tag.length) start).1
  let inside : Walk := .andThen (.all (attributes.map (mapper.attributeSpans id tag)))
    mapper.tagBlanks
  have hinside : mapper.Advances inside := by
    refine Advances.andThen ?_ mapper.advances_tagBlanks
    exact Walk.all_of mapper.advances_stay Advances.andThen fun attr _ =>
      mapper.advances_attribute id tag attr
  have hend := mapper.advances_span (.node id) .openingTagEnd 1
  cases hclosing : mapper.closingTags tag with
  | true =>
      have hwalk : (mapper.opening id tag attributes start).1 =
          (mapper.span (.node id) .openingTagEnd 1 (inside named).1).1 := by
        simp only [opening, hclosing]
        rfl
      rw [hwalk]
      exact ((mapper.advances_span _ _ _ start).trans (hinside named)).trans (hend _)
  | false =>
      have hwalk : (mapper.opening id tag attributes start).1 =
          (mapper.span (.node id) .openingTagEnd 1
            (mapper.needlessEnd tag (inside named).1).1).1 := by
        simp only [opening, hclosing]
        rfl
      obtain ⟨hwritten, hassigned, hbounded⟩ := hinside named
      obtain ⟨hwritten', hassigned', hbounded'⟩ := mapper.needlessEnd_bounds tag (inside named).1
      obtain ⟨hwritten'', hassigned'', hbounded''⟩ :=
        hend (mapper.needlessEnd tag (inside named).1).1
      have hnamed : named.written = start.written + (1 + tag.length) ∧
          named.assigned = start.assigned + (1 + tag.length) := by
        constructor
        · rfl
        · show ((start.written + (1 + tag.length) : Nat) : Int) - start.extra = _
          simp only [Cursor.assigned]
          omega
      rw [hwalk]
      constructor <;> omega

/-- A closing tag is written, and at least one of its characters was assigned. -/
theorem advances_closing (mapper : Mapper .checked) (id : NodeId) (tag : String) :
    mapper.Advances (mapper.closing id tag) := by
  intro start
  let closed := (mapper.span (.node id) .closingTag (3 + tag.length) start).1
  obtain ⟨added, hle, hadded, hwritten, hassigned⟩ : ∃ added : Int, 0 ≤ added ∧
      added ≤ 2 + tag.length ∧ (mapper.closing id tag start).1.written = closed.written ∧
        (mapper.closing id tag start).1.assigned = closed.assigned - added := by
    refine ⟨_, ?_, ?_, rfl, assigned_add _ [] closed⟩
    · split
      · omega
      · exact Int.le_refl 0
    · split
      · omega
      · omega
  have hspan : closed.assigned = start.assigned + (3 + tag.length) := by
    show ((start.written + (3 + tag.length) : Nat) : Int) - start.extra = _
    simp only [Cursor.assigned]
    omega
  have hspanned : closed.written = start.written + (3 + tag.length) := rfl
  constructor <;> omega

/-- Every walk moves forward. -/
theorem composes_advances (mapper : Mapper .checked) : mapper.Composes mapper.Advances where
  stay := mapper.advances_stay
  andThen := Advances.andThen
  skip := mapper.advances_skip
  advance := mapper.advances_advance
  mismatch := mapper.advances_mismatch
  mark _ := mapper.advances_emit _ _ _
  text := mapper.advances_text
  comment := mapper.advances_comment
  opening _ _ := mapper.advances_opening _ _ _
  closing := mapper.advances_closing

end Mapper

end Provenance.Markup
