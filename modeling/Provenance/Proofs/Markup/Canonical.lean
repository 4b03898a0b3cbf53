import Provenance.Proofs.Markup.Layout
import Provenance.Proofs.Markup.Verbatim
import Provenance.Proofs.Text.Lowercase

/-! # Canonical markup

Markup is canonical if a parser would read the tree back from it. The mapper guesses from a
few characters whether a tag was closed needlessly. In canonical markup what follows an
element without a closing tag never looks like one, and the only gaps are the contents of
inline frames.
-/

namespace Provenance.Markup

open Provenance.Text (isBlank lowercase lowercaseAfter isUncapped eq_of_lowercaseAfter_cons
  lowercaseAfter_cons_of_ascii lowercaseAfter_cons_of_uncapped)

/-- The characters of the tags of elements. -/
def isTagChar (c : Char) : Bool := c.isLower || c.isDigit || c = '-'

theorem isUncapped_of_isTagChar {c : Char} (hletter : isTagChar c = true) :
    isUncapped c = true := by
  have hlower : c.isLower = (decide (97 ≤ c.val) && decide (c.val ≤ 122)) := rfl
  simp only [isTagChar, hlower, Char.isDigit, Bool.or_eq_true, Bool.and_eq_true,
    decide_eq_true_eq, UInt32.le_iff_toNat_le, ge_iff_le] at hletter
  simp only [isUncapped, Bool.or_eq_true, Bool.and_eq_true, decide_eq_true_eq]
  change ((97 ≤ c.toNat ∧ c.toNat ≤ 122) ∨ (48 ≤ c.toNat ∧ c.toNat ≤ 57)) ∨ c = '-' at hletter
  rcases hletter with (hletter | hletter) | rfl
  · omega
  · omega
  · decide

/-- The characters of tags are ASCII, in capitals too. -/
theorem ascii_of_isTagChar {c : Char} (hchar : isTagChar c.toLower = true) : c.toNat < 0x80 := by
  by_cases hcapital : c.val ≥ 'A'.val ∧ c.val ≤ 'Z'.val
  · have hle : c.val.toNat ≤ 'Z'.val.toNat := UInt32.le_iff_toNat_le.mp hcapital.2
    exact Nat.lt_of_le_of_lt hle (by decide)
  · have hsame : c.toLower = c := dif_neg hcapital
    rw [hsame] at hchar
    have huncapped := isUncapped_of_isTagChar hchar
    simp only [isUncapped, Bool.or_eq_true, Bool.and_eq_true, decide_eq_true_eq] at huncapped
    omega

theorem toLower_of_isTagChar {c : Char} (hchar : isTagChar c = true) : c.toLower = c := by
  refine dif_neg fun ⟨hfirst, hlast⟩ => ?_
  have huncapped := isUncapped_of_isTagChar hchar
  simp only [isUncapped, Bool.or_eq_true, Bool.and_eq_true, decide_eq_true_eq] at huncapped
  have hfirst : 'A'.val.toNat ≤ c.val.toNat := UInt32.le_iff_toNat_le.mp hfirst
  have hlast : c.val.toNat ≤ 'Z'.val.toNat := UInt32.le_iff_toNat_le.mp hlast
  change 0x41 ≤ c.toNat at hfirst
  change c.toNat ≤ 0x5A at hlast
  omega

theorem ne_of_isTagChar {c d : Char} (hchar : isTagChar c = true) (hother : isTagChar d = false) :
    c ≠ d := by
  rintro rfl
  rw [hchar] at hother
  cases hother

section NoClosing

variable {tag parent : String} {rest more : List Char}

/-- What comes out as the beginning of a closing tag went in as one. -/
theorem exists_of_lowercase (h : lowercase (('>' :: rest).take ('>' :: closingTag tag).length) =
    '>' :: closingTag tag) :
    ∃ named, rest.take (closingTag tag).length = '<' :: '/' :: named ∧
      lowercaseAfter ['/', '<', '>'] named = tag.toList ++ ['>'] := by
  have hopening : lowercaseAfter [] ('>' :: rest.take (closingTag tag).length) =
      '>' :: '<' :: '/' :: (tag.toList ++ ['>']) := h
  rw [lowercaseAfter_cons_of_uncapped (by decide)] at hopening
  obtain ⟨slashed, htake, hslashed⟩ :=
    eq_of_lowercaseAfter_cons (by decide) (by decide) (List.cons.inj hopening).2
  obtain ⟨named, rfl, hnamed⟩ := eq_of_lowercaseAfter_cons (by decide) (by decide) hslashed
  exact ⟨named, htake, hnamed⟩

/-- What does not begin like a closing tag is not taken for one. -/
theorem noClosing_of_not_prefix (h : ¬ ['<', '/'] <+: rest) : Mapper.NoClosing tag rest := by
  intro hlower
  obtain ⟨named, htake, -⟩ := exists_of_lowercase hlower
  have hprefix : '<' :: '/' :: named <+: rest := by
    rw [← htake]
    exact List.take_prefix _ rest
  exact h (List.IsPrefix.trans ⟨named, rfl⟩ hprefix)

/-- The name of a closing tag in lower case is that of its element. -/
theorem eq_of_lowercase_name {before name other : List Char}
    (hname : ∀ c ∈ name, isTagChar c.toLower = true) (hother : ∀ c ∈ other, isTagChar c = true)
    (h : lowercaseAfter before ((name ++ '>' :: more).take (other.length + 1)) = other ++ ['>']) :
    name.map Char.toLower = other := by
  induction name generalizing before other with
  | nil =>
      rw [List.nil_append, List.take_succ_cons, lowercaseAfter_cons_of_uncapped (by decide)] at h
      cases other with
      | nil => rfl
      | cons d other =>
          have hother' := hother d List.mem_cons_self
          rw [← (List.cons.inj h).1] at hother'
          exact absurd hother' (by decide)
  | cons c name ih =>
      have hchar := hname c List.mem_cons_self
      rw [List.cons_append, List.take_succ_cons,
        lowercaseAfter_cons_of_ascii (ascii_of_isTagChar hchar)] at h
      cases other with
      | nil =>
          rw [(List.cons.inj h).1] at hchar
          exact absurd hchar (by decide)
      | cons d other =>
          obtain ⟨rfl, h⟩ := List.cons.inj h
          rw [List.map_cons, ih (fun e he => hname e (List.mem_cons_of_mem c he))
            (fun e he => hother e (List.mem_cons_of_mem _ he)) h]

/-- The closing tag of one element is not taken for that of another, whatever its case. -/
theorem noClosing_of_name {name : List Char} (htag : ∀ c ∈ tag.toList, isTagChar c = true)
    (hparent : ∀ c ∈ parent.toList, isTagChar c = true) (hne : parent ≠ tag)
    (hname : name.map Char.toLower = parent.toList) :
    Mapper.NoClosing tag ('<' :: '/' :: (name ++ '>' :: more)) := by
  intro hlower
  obtain ⟨named, htake, hnamed⟩ := exists_of_lowercase hlower
  have hlength : (closingTag tag).length = tag.toList.length + 1 + 2 := by
    rw [← length_closingTag, String.length_toList, Nat.add_comm]
  have hchars : ∀ c ∈ name, isTagChar c.toLower = true := fun c hchar =>
    hparent _ (hname ▸ List.mem_map_of_mem hchar)
  rw [hlength, List.take_succ_cons, List.take_succ_cons] at htake
  rw [← (List.cons.inj (List.cons.inj htake).2).2] at hnamed
  exact hne (String.toList_injective (hname.symm.trans (eq_of_lowercase_name hchars htag hnamed)))

end NoClosing

/-- What can follow any element without a closing tag. -/
def Harmless (rest : List Char) : Prop :=
  ∀ tag : String, isVoid tag = true → (∀ c ∈ tag.toList, isTagChar c = true) →
    Mapper.NoClosing tag rest

theorem harmless_nil : Harmless [] :=
  fun _ _ _ => noClosing_of_not_prefix fun ⟨_, hprefix⟩ => nomatch hprefix

/-- A closing tag in any case. -/
theorem harmless_of_name {parent : String} {name more : List Char} (hvoid : isVoid parent = false)
    (hparent : ∀ c ∈ parent.toList, isTagChar c = true)
    (hname : name.map Char.toLower = parent.toList) :
    Harmless ('<' :: '/' :: (name ++ '>' :: more)) := by
  refine fun tag htag hchars => noClosing_of_name hchars hparent ?_ hname
  rintro rfl
  rw [hvoid] at htag
  cases htag

theorem harmless_closingTag {parent : String} {more : List Char} (hvoid : isVoid parent = false)
    (hparent : ∀ c ∈ parent.toList, isTagChar c = true) :
    Harmless (closingTag parent ++ more) := by
  have hclosing : closingTag parent ++ more = '<' :: '/' :: (parent.toList ++ '>' :: more) := by
    simp [closingTag]
  rw [hclosing]
  refine harmless_of_name hvoid hparent ?_
  rw [List.map_congr_left fun c hchar => toLower_of_isTagChar (hparent c hchar), List.map_id']

/-- Written forms that never begin like a closing tag. -/
def Unclosing (html : List Char) : Prop :=
  html = [] ∨ ∀ more, ¬ ['<', '/'] <+: html ++ more

theorem harmless_append {html rest : List Char} (hunclosing : Unclosing html)
    (hharmless : Harmless rest) : Harmless (html ++ rest) := by
  rcases hunclosing with rfl | hunclosing'
  · exact hharmless
  · exact fun _ _ _ => noClosing_of_not_prefix (hunclosing' rest)

theorem harmless_flatMap {α : Type} {items : List α} {texts : α → List Char} {rest : List Char}
    (hunclosing : ∀ item ∈ items, Unclosing (texts item)) (hharmless : Harmless rest) :
    Harmless (items.flatMap texts ++ rest) := by
  induction items with
  | nil => exact hharmless
  | cons item items ih =>
      rw [List.flatMap_cons, List.append_assoc]
      exact harmless_append (hunclosing item List.mem_cons_self)
        (ih fun other hmem => hunclosing other (List.mem_cons_of_mem item hmem))

theorem unclosing_of_head {c : Char} {tail : List Char} (hchar : c ≠ '<') :
    Unclosing (c :: tail) := by
  refine .inr fun more ⟨rest, heq⟩ => hchar ?_
  exact (List.cons.inj heq).1.symm

theorem unclosing_of_second {c d : Char} {tail : List Char} (hchar : d ≠ '/') :
    Unclosing (c :: d :: tail) := by
  refine .inr fun more ⟨rest, heq⟩ => hchar ?_
  exact (List.cons.inj (List.cons.inj heq).2).1.symm

theorem unclosing_escapeText {tag : String} {content : List Char} (hraw : isRawText tag = false) :
    Unclosing (escapeText tag content) := by
  have hescape : escapeText tag content = content.flatMap escapeTextChar := by
    simp [escapeText, hraw]
  rw [hescape]
  cases content with
  | nil => exact .inl rfl
  | cons c content =>
      rw [List.flatMap_cons]
      unfold escapeTextChar
      split
      · exact unclosing_of_head (by decide)
      · split
        · exact unclosing_of_head (by decide)
        · split
          · exact unclosing_of_head (by decide)
          · rename_i hchar
            split
            · exact unclosing_of_head (by decide)
            · exact unclosing_of_head hchar

theorem unclosing_openingTag {tag : String} {attributes : List Attribute} {more : List Char}
    (htag : ∀ c ∈ tag.toList, isTagChar c = true) :
    Unclosing (openingTag tag attributes ++ more) := by
  unfold openingTag
  cases hname : tag.toList with
  | nil =>
      cases attributes with
      | nil => exact unclosing_of_second (by decide)
      | cons attr attributes => exact unclosing_of_second (by decide)
  | cons c name =>
      have hchar := htag c (by simp [hname])
      exact unclosing_of_second (ne_of_isTagChar hchar (by decide))

namespace Fragment

/-- The nodes whose children are written for a container. -/
def Within (fragment : Fragment) (container id : NodeId) : Prop :=
  id = container ∨ fragment.Below container id ∧ fragment.tag? id ≠ none

/-- The conditions under which a parser reads the content of a container back from its
    written form. -/
structure Canonical (fragment : Fragment) (container : NodeId) : Prop where
  tags : ∀ id, fragment.Below container id → ∀ c ∈ (fragment.tag id).toList, isTagChar c = true
  attributes : ∀ id, fragment.Below container id → ∀ attr ∈ fragment.attributes id,
    ∀ c ∈ attr.name.toList.head?, isBlank c = false
  voids : ∀ id, fragment.Below container id → isVoid (fragment.tag id) = true →
    fragment.children id = []
  rawTexts : ∀ id, fragment.Within container id → isRawText (fragment.tag id) = true →
    (fragment.children id).length ≤ 1 ∧
      ∀ child ∈ fragment.children id, fragment.content? child ≠ none
  references : ∀ id, fragment.Within container id → keepsReferences (fragment.tag id) = true →
    ∀ child ∈ fragment.children id, ∀ content ∈ fragment.content? child, '&' ∉ content.toList
  attributeReferences : ∀ id, fragment.Below container id →
    keepsReferences (fragment.tag id) = true → ∀ attr ∈ fragment.attributes id,
      '&' ∉ attr.value.toList

variable {fragment : Fragment} {container id child : Nat}

theorem Within.below_of_child (hwithin : fragment.Within container id)
    (hchild : child ∈ fragment.children id) : fragment.Below container child := by
  rcases hwithin with rfl | ⟨hbelow, htag⟩
  · exact .child hchild
  · exact .step hbelow htag hchild

theorem Below.exists_parent (hbelow : fragment.Below container child) :
    ∃ id, fragment.Within container id ∧ child ∈ fragment.children id := by
  cases hbelow with
  | child hchild => exact ⟨container, .inl rfl, hchild⟩
  | @step id _ hbelow htag hchild => exact ⟨id, .inr ⟨hbelow, htag⟩, hchild⟩

/-- In an element whose text is escaped, no child is written like a closing tag. -/
theorem unclosing_nodeHtml (hcanonical : fragment.Canonical container)
    (hwithin : fragment.Within container id) (hraw : isRawText (fragment.tag id) = false)
    (hchild : child ∈ fragment.children id) (depth : Nat) :
    Unclosing (fragment.nodeHtml depth (fragment.tag id) child) := by
  cases depth with
  | zero => exact .inl rfl
  | succ depth =>
      cases hnode : fragment.get? child with
      | none => exact .inl (by simp [nodeHtml, hnode])
      | some node =>
          cases hkind : node.kind with
          | text content =>
              simp only [nodeHtml, hnode, hkind]
              exact unclosing_escapeText hraw
          | comment content =>
              simp only [nodeHtml, hnode, hkind]
              exact unclosing_of_second (by decide)
          | element tag attributes =>
              have htag := hcanonical.tags child (hwithin.below_of_child hchild)
              rw [tag_of_get hnode hkind] at htag
              simp only [nodeHtml, hnode, hkind]
              exact unclosing_openingTag htag

/-- Every element of canonical markup has its pieces among those of the container. -/
theorem nodePieces_subset (hbuilt : fragment.Built) (hcontainer : fragment.Proper container)
    (hcanonical : fragment.Canonical container) (hbelow : fragment.Below container id)
    (htag : fragment.tag? id ≠ none) :
    ∃ depth, fragment.size - id < depth + 1 ∧
      ∀ piece ∈ fragment.nodePieces [] (depth + 1) (fragment.parentTag id) id,
        piece ∈ fragment.contentPieces [] container := by
  induction hbelow with
  | @child id hmem =>
      refine ⟨fragment.size, Nat.lt_succ_of_le (Nat.sub_le _ _), fun piece hpiece => ?_⟩
      rw [parentTag_of_child hbuilt hmem] at hpiece
      exact List.mem_cons_of_mem _ (List.mem_flatMap.mpr ⟨id, hmem, hpiece⟩)
  | @step id child hbelow hparent hchild ih =>
      obtain ⟨depth, hdepth, hsubset⟩ := ih hparent
      obtain ⟨node, tag, attributes, hnode, hkind⟩ := exists_of_tag?_ne_none hparent
      have hname := tag_of_get hnode hkind
      have hvoid : isVoid tag = false := by
        rw [Bool.eq_false_iff, ← hname]
        intro hvoid
        rw [hcanonical.voids id hbelow hvoid] at hchild
        cases hchild
      -- An inline frame has no children but a text.
      have hframe : tag ≠ "iframe" := by
        rintro rfl
        have hraw : isRawText (fragment.tag id) = true := by
          rw [hname]
          decide
        have htext := (hcanonical.rawTexts id (.inr ⟨hbelow, hparent⟩) hraw).2 child hchild
        obtain ⟨other, tag, attributes, hnode', hkind⟩ := exists_of_tag?_ne_none htag
        exact htext (by simp only [content?, kind_of_get hnode', hkind])
      have hproper := hbuilt.proper_of_below hcontainer hbelow
      have hlt := hbuilt.lt_of_proper hproper hparent hchild
      obtain ⟨-, hsize, -⟩ := hbuilt.linked id child hchild
      obtain ⟨level, rfl⟩ : ∃ level, depth = level + 1 := ⟨depth - 1, by omega⟩
      refine ⟨level, by omega, fun piece hpiece => hsubset piece ?_⟩
      have hchildren : piece ∈ node.children.flatMap
          (fragment.nodePieces [] (level + 1) tag) := by
        rw [parentTag_of_child hbuilt hchild, hname] at hpiece
        rw [children_eq_of_get hnode] at hchild
        exact List.mem_flatMap.mpr ⟨child, hchild, hpiece⟩
      rw [nodePieces]
      simp only [hnode, hkind, hvoid, hframe, List.not_mem_nil, Bool.false_eq_true, if_false,
        List.mem_append, List.mem_cons, hchildren, or_true, true_or]

/-- The gaps of canonical markup are the contents of its inline frames. -/
theorem gap_mem_contentPieces_iff (hbuilt : fragment.Built) (hproper : fragment.Proper container)
    (hcanonical : fragment.Canonical container) {text : List Char} :
    .gap text ∈ fragment.contentPieces [] container ↔
      ∃ id, fragment.Below container id ∧ fragment.tag? id = some "iframe" ∧
        text = fragment.innerHtml id := by
  constructor
  · intro hgap
    rcases explains_contentPieces [] hbuilt hproper _ hgap with ⟨_, hnone, -⟩ | hframe
    · cases hnone
    · exact hframe
  · rintro ⟨id, hbelow, htag, rfl⟩
    have helement : fragment.tag? id ≠ none := by
      rw [htag]
      exact Option.some_ne_none _
    obtain ⟨depth, hdepth, hsubset⟩ := nodePieces_subset hbuilt hproper hcanonical hbelow helement
    obtain ⟨node, tag, attributes, hnode, hkind⟩ := exists_of_tag?_ne_none helement
    obtain rfl : tag = "iframe" := by
      rw [tag?_of_get hnode hkind] at htag
      exact Option.some.inj htag
    refine hsubset _ ?_
    have hvoid : isVoid "iframe" = false := by decide
    rw [nodePieces]
    simp only [hnode, hkind, hvoid, List.not_mem_nil, Bool.false_eq_true, if_false, if_true,
      List.mem_append, List.mem_cons, true_or, or_true]

end Fragment

end Provenance.Markup
