import Provenance.Proofs.Markup.FixedPoint
import Provenance.Proofs.Markup.Leads

/-! # Passages of the assigned string

A passage is a stretch of the assigned string together with the places in it that the characters
written for it come from. A stretch of the walk reads a passage if, wherever it comes to stand at
its beginning, it ends where the passage ends, finds nothing to report, and yields origins that
lead to those places. Passages that are read one after another are read as one.
-/

namespace Provenance.Markup

/-- A stretch of the assigned string, and for every character that is written for it the place
    in the stretch that it leads to. Nothing is said about a character without a lead. -/
@[ext] structure Passage where
  source : List Char
  leads : List (Option Nat)

namespace Passage

variable {a b passage : Passage} {k j place : Nat}

def empty : Passage := ⟨[], []⟩

/-- What is written as it was assigned. -/
def same (text : List Char) : Passage := ⟨text, (List.range text.length).map some⟩

/-- Written characters that nothing is said about. -/
def unled (source : List Char) (count : Nat) : Passage := ⟨source, List.replicate count none⟩

instance : Append Passage :=
  ⟨fun a b => ⟨a.source ++ b.source, a.leads ++ b.leads.map (·.map (· + a.source.length))⟩⟩

/-- Passages one after another. -/
def join : List Passage → Passage
  | [] => empty
  | passage :: rest => passage ++ join rest

@[simp] theorem source_append (a b : Passage) : (a ++ b).source = a.source ++ b.source := rfl

@[simp] theorem leads_append (a b : Passage) :
    (a ++ b).leads = a.leads ++ b.leads.map (·.map (· + a.source.length)) := rfl

@[simp] theorem length_leads_append (a b : Passage) :
    (a ++ b).leads.length = a.leads.length + b.leads.length := by
  rw [leads_append, List.length_append, List.length_map]

@[simp] theorem length_leads_same (text : List Char) : (same text).leads.length = text.length := by
  rw [same, List.length_map, List.length_range]

theorem leads_same {text : List Char} (hlt : k < text.length) :
    (same text).leads[k]? = some (some k) := by
  simp only [same, List.getElem?_map, List.getElem?_range hlt, Option.map_some]

@[simp] theorem append_empty (a : Passage) : a ++ empty = a :=
  Passage.ext (List.append_nil _) (List.append_nil _)

@[simp] theorem empty_append (a : Passage) : empty ++ a = a := by
  refine Passage.ext rfl ?_
  simp [empty]

theorem append_assoc (a b c : Passage) : a ++ b ++ c = a ++ (b ++ c) := by
  refine Passage.ext (List.append_assoc _ _ _) ?_
  simp [Function.comp_def, Nat.add_comm, Nat.add_left_comm]

/-- A character of the second passage leads as far as it did before, counted from the end of the
    first. -/
theorem leads_append_cases (h : (a ++ b).leads[k]? = some (some place)) :
    a.leads[k]? = some (some place) ∨ ∃ j inner, k = a.leads.length + j ∧
      place = a.source.length + inner ∧ b.leads[j]? = some (some inner) := by
  rw [leads_append] at h
  by_cases hlt : k < a.leads.length
  · rw [List.getElem?_append_left hlt] at h
    exact .inl h
  · rw [List.getElem?_append_right (by omega), List.getElem?_map] at h
    obtain ⟨lead, hlead, heq⟩ := Option.map_eq_some_iff.mp h
    obtain ⟨inner, rfl, rfl⟩ := Option.map_eq_some_iff.mp heq
    exact .inr ⟨k - a.leads.length, inner, by omega, Nat.add_comm _ _, hlead⟩

theorem leads_append_left (h : a.leads[k]? = some (some place)) :
    (a ++ b).leads[k]? = some (some place) := by
  obtain ⟨hlt, -⟩ := List.getElem?_eq_some_iff.mp h
  rw [leads_append, List.getElem?_append_left hlt, h]

theorem leads_append_right (h : b.leads[k]? = some (some place)) :
    (a ++ b).leads[a.leads.length + k]? = some (some (a.source.length + place)) := by
  rw [leads_append, List.getElem?_append_right (Nat.le_add_right _ _), Nat.add_sub_cancel_left,
    List.getElem?_map, h, Nat.add_comm]
  rfl

theorem unled_append (front back : List Char) (m n : Nat) :
    unled front m ++ unled back n = unled (front ++ back) (m + n) := by
  refine Passage.ext rfl ?_
  simp [unled, List.replicate_append_replicate]

theorem source_join (passages : List Passage) :
    (join passages).source = passages.flatMap source := by
  induction passages with
  | nil => rfl
  | cons passage passages ih => rw [join, source_append, ih, List.flatMap_cons]

theorem length_leads_join (passages : List Passage) :
    (join passages).leads.length = (passages.flatMap leads).length := by
  induction passages with
  | nil => rfl
  | cons passage passages ih =>
      rw [join, length_leads_append, ih, List.flatMap_cons, List.length_append]

/-- Passages lead to as many places as there are characters in what is written for them. -/
theorem length_leads_map {items : List α} {passages : α → Passage} {texts : α → List Char}
    (h : ∀ item ∈ items, (passages item).leads.length = (texts item).length) :
    ((items.map passages).flatMap leads).length = (items.flatMap texts).length := by
  induction items with
  | nil => rfl
  | cons item items ih =>
      rw [List.map_cons, List.flatMap_cons, List.flatMap_cons, List.length_append,
        List.length_append, h item List.mem_cons_self,
        ih fun other hmem => h other (List.mem_cons_of_mem item hmem)]

theorem join_append (front back : List Passage) :
    join (front ++ back) = join front ++ join back := by
  induction front with
  | nil => exact (empty_append _).symm
  | cons passage front ih => rw [List.cons_append, join, ih, join, append_assoc]

/-- Passages of the items of a list, which are themselves made up of others. -/
theorem join_flatMap (items : List α) (passages : α → List Passage) :
    join (items.flatMap passages) = join (items.map fun item => join (passages item)) := by
  induction items with
  | nil => rfl
  | cons item items ih => rw [List.flatMap_cons, join_append, ih, List.map_cons, join]

/-- Where a character of one passage among others leads. -/
theorem leads_join (front back : List Passage) (h : passage.leads[k]? = some (some place)) :
    (join (front ++ passage :: back)).leads[(front.flatMap leads).length + k]? =
      some (some ((front.flatMap source).length + place)) := by
  rw [join_append, ← length_leads_join, ← source_join]
  exact leads_append_right (leads_append_left h)

end Passage

namespace Mapper

/-- What a stretch of the walk does that comes to stand behind some part of the assigned string
    and reads a passage from there. -/
structure ReadsAt (mapper : Mapper .checked) (walk : Walk) (passage : Passage) (start : Nat)
    (cursor : Cursor) : Prop where
  written : (walk cursor).1.written = cursor.written + passage.leads.length
  assigned : (walk cursor).1.assigned = (start + passage.source.length : Nat)
  clean : (walk cursor).2.diagnostics = []
  leads : ∀ k place, passage.leads[k]? = some (some place) → place ≤ passage.source.length ∧
    ∃ mapped ∈ (walk cursor).2.origins,
      mapper.LeadsTo (cursor.written + passage.leads.length) mapped (cursor.written + k)
        (start + place : Nat)

/-- A stretch reads a passage wherever the assigned string holds the passage, followed by some
    rest, and the content does not end inside of it. -/
def Reads (mapper : Mapper .checked) (walk : Walk) (passage : Passage) (rest : List Char) : Prop :=
  ∀ (before : List Char) (cursor : Cursor),
    mapper.source.chars = before ++ (passage.source ++ rest) →
    cursor.assigned = before.length →
    (before.length + passage.source.length : Nat) ≤ mapper.source.contentEnd →
      mapper.ReadsAt walk passage before.length cursor

variable {mapper : Mapper .checked} {first second walk : Walk} {a b passage : Passage}
    {rest : List Char}

theorem ReadsAt.andThen {start : Nat} {cursor : Cursor}
    (hfirst : mapper.ReadsAt first a start cursor)
    (hsecond : mapper.ReadsAt second b (start + a.source.length) (first cursor).1) :
    mapper.ReadsAt (first.andThen second) (a ++ b) start cursor := by
  have hwritten := hfirst.written
  constructor
  case written =>
      have hmoved := hsecond.written
      rw [Passage.length_leads_append, ← Nat.add_assoc, ← hwritten]
      exact hmoved
  case assigned =>
      have hmoved := hsecond.assigned
      rw [Passage.source_append, List.length_append, ← Nat.add_assoc]
      exact hmoved
  case clean => exact List.append_eq_nil_iff.mpr ⟨hfirst.clean, hsecond.clean⟩
  case leads =>
      intro k place hentry
      rw [Passage.length_leads_append, Passage.source_append, List.length_append]
      rcases Passage.leads_append_cases hentry with hentry | ⟨j, inner, rfl, rfl, hj⟩
      · obtain ⟨hplace, mapped, hmem, hleads⟩ := hfirst.leads k place hentry
        exact ⟨Nat.le_add_right_of_le hplace, mapped, List.mem_append_left _ hmem,
          hleads.mono (by omega)⟩
      · obtain ⟨hplace, mapped, hmem, hleads⟩ := hsecond.leads j inner hj
        rw [hwritten, Nat.add_assoc, Nat.add_assoc, Nat.add_assoc] at hleads
        exact ⟨Nat.add_le_add_left hplace _, mapped, List.mem_append_right _ hmem, hleads⟩

/-- A second stretch may look back on what the first one has passed over. -/
theorem Reads.andThen_at (hbegin : mapper.Reads first a (b.source ++ rest))
    (hchars : ∀ (before : List Char) (cursor : Cursor),
      mapper.source.chars = before ++ a.source ++ (b.source ++ rest) →
      cursor.assigned = (before.length + a.source.length : Nat) →
      (before.length + a.source.length + b.source.length : Nat) ≤ mapper.source.contentEnd →
        mapper.ReadsAt second b (before.length + a.source.length) cursor) :
    mapper.Reads (first.andThen second) (a ++ b) rest := by
  intro before cursor hsource hcursor hend
  rw [Passage.source_append, List.length_append] at hend
  rw [Passage.source_append, List.append_assoc] at hsource
  have hfirst := hbegin before cursor hsource hcursor (by omega)
  rw [← List.append_assoc] at hsource
  exact hfirst.andThen (hchars before _ hsource hfirst.assigned (by omega))

theorem Reads.andThen (hfirst : mapper.Reads first a (b.source ++ rest))
    (hsecond : mapper.Reads second b rest) : mapper.Reads (first.andThen second) (a ++ b) rest := by
  refine hfirst.andThen_at fun before cursor hsource hcursor hend => ?_
  rw [← List.length_append] at hcursor hend ⊢
  exact hsecond (before ++ a.source) cursor hsource hcursor hend

/-- What is read can be read without saying where it leads. -/
theorem Reads.unled (h : mapper.Reads walk passage rest) :
    mapper.Reads walk (.unled passage.source passage.leads.length) rest := by
  intro before cursor hsource hcursor hend
  have hread := h before cursor hsource hcursor hend
  have hlength : (Passage.unled passage.source passage.leads.length).leads.length =
      passage.leads.length := List.length_replicate
  refine ⟨hlength.symm ▸ hread.written, hread.assigned, hread.clean, fun k place hentry => ?_⟩
  cases List.eq_of_mem_replicate (List.mem_of_getElem? hentry)

theorem readsAt_stay {start : Nat} {cursor : Cursor} (hcursor : cursor.assigned = start) :
    mapper.ReadsAt .stay .empty start cursor :=
  ⟨rfl, hcursor, rfl, fun _ _ hentry => nomatch hentry⟩

theorem reads_stay (mapper : Mapper .checked) (rest : List Char) : mapper.Reads .stay .empty rest :=
  fun _ _ _ hcursor _ => readsAt_stay hcursor

/-- Stretches that are each followed by what the later ones read. -/
theorem reads_all {items : List α} {walks : α → Walk} {passages : α → Passage}
    (h : ∀ front item back, items = front ++ item :: back →
      mapper.Reads (walks item) (passages item)
        ((Passage.join (back.map passages)).source ++ rest)) :
    mapper.Reads (.all (items.map walks)) (.join (items.map passages)) rest := by
  induction items with
  | nil => exact mapper.reads_stay rest
  | cons item items ih =>
      -- What follows the first stretch is read by the others, with the same rest behind.
      have hrest := ih fun front other back heq => h (item :: front) other back (by rw [heq]; rfl)
      exact (h [] item items rfl).andThen hrest

theorem reads_emit (mapper : Mapper .checked) (target : Target) (action : Action)
    (rest : List Char) : mapper.Reads (mapper.emit target action 0) .empty rest :=
  fun _ _ _ hcursor _ => ⟨rfl, hcursor, rfl, fun _ _ hentry => nomatch hentry⟩

theorem reads_advance (mapper : Mapper .checked) (text rest : List Char) :
    mapper.Reads (.advance text.length) (.unled text text.length) rest := by
  intro before cursor _ hcursor _
  refine ⟨?_, ?_, rfl, fun k place hentry => ?_⟩
  · rw [Passage.unled, List.length_replicate]
    rfl
  · simp only [Cursor.assigned, Walk.advance, Passage.unled] at hcursor ⊢
    omega
  · cases List.eq_of_mem_replicate (List.mem_of_getElem? hentry)

/-- Assigned characters that are dropped are read as nothing. -/
theorem readsAt_drop {dropped : List Char} {start : Nat} {cursor : Cursor} (sums : List Int)
    (hwalk : walk cursor = Walk.add (-(dropped.length : Int)) sums cursor)
    (hcursor : cursor.assigned = start) :
    mapper.ReadsAt walk (.unled dropped 0) start cursor := by
  refine ⟨?_, ?_, ?_, fun k place hentry => nomatch hentry⟩
  · rw [hwalk]
    rfl
  · rw [hwalk]
    simp only [Cursor.assigned, Walk.add, Passage.unled] at hcursor ⊢
    omega
  · rw [hwalk]
    rfl

/-- A span that is written as it was assigned. -/
theorem reads_span (mapper : Mapper .checked) (target : Target) (action : Action)
    (text rest : List Char) {length : Nat} (hlength : length = text.length) :
    mapper.Reads (mapper.span target action length) (.same text) rest := by
  intro before cursor _ hcursor _
  subst hlength
  constructor
  case written => rw [Passage.length_leads_same]; rfl
  case assigned =>
      simp only [Cursor.assigned, span, Walk.andThen, emit, Walk.advance, Passage.same] at hcursor ⊢
      omega
  case clean => rfl
  case leads =>
      intro k place hentry
      rw [Passage.length_leads_same]
      obtain ⟨hlt, -⟩ := List.getElem?_eq_some_iff.mp hentry
      rw [Passage.length_leads_same] at hlt
      rw [Passage.leads_same hlt] at hentry
      obtain rfl : k = place := Option.some.inj (Option.some.inj hentry)
      refine ⟨Nat.le_of_lt hlt, _, List.mem_singleton_self _, target, action, cursor.written,
        text.length, cursor.extra, none, rfl, by omega, by omega, Nat.le_refl _, ?_⟩
      rw [assignedPosition_none]
      simp only [Cursor.assigned] at hcursor
      omega

/-- A text is read as a passage if its correction table leads to the places that the passage
    says. -/
theorem reads_text_of_table (mapper : Mapper .checked) (id : NodeId) {parentTag content : String}
    (hlength : passage.leads.length = (escapeText parentTag content.toList).length)
    (htable : ∀ before : List Char, mapper.source.chars = before ++ (passage.source ++ rest) →
      (before.length + passage.source.length : Nat) ≤ mapper.source.contentEnd →
        let table := mapper.source.table parentTag (escapeText parentTag content.toList)
          before.length
        table.2 = passage.leads.length - passage.source.length ∧
          ∀ (k place : Nat), passage.leads[k]? = some (some place) →
            place ≤ passage.source.length ∧ table.1[k]? = some ((place : Int) - k)) :
    mapper.Reads (mapper.text id parentTag content) passage rest := by
  intro before cursor hsource hcursor hend
  obtain ⟨htotal, hleads⟩ := htable before hsource hend
  generalize htable : mapper.source.table parentTag (escapeText parentTag content.toList)
    before.length = table at htotal hleads
  obtain ⟨sums, hwalk⟩ : ∃ sums, mapper.text id parentTag content cursor =
      (⟨cursor.written + passage.leads.length, cursor.extra + table.2⟩,
        { origins := [mapper.origin (.node id) .textValue cursor.written passage.leads.length
            cursor.extra (if table.1.isEmpty then none else some table.1)]
          sums }) := by
    simp only [Mapper.text, hcursor, htable, hlength]
    exact ⟨_, rfl⟩
  simp only [Cursor.assigned] at hcursor
  constructor
  case written => rw [hwalk]
  case assigned =>
      rw [hwalk]
      simp only [Cursor.assigned]
      omega
  case clean => rw [hwalk]
  case leads =>
      intro k place hget
      obtain ⟨hplace, hentry⟩ := hleads k place hget
      obtain ⟨hlt, -⟩ := List.getElem?_eq_some_iff.mp hget
      rw [hwalk]
      refine ⟨hplace, _, List.mem_singleton_self _, .node id, .textValue, cursor.written,
        passage.leads.length, cursor.extra, _, rfl, by omega, by omega, Nat.le_refl _, ?_⟩
      rw [Nat.add_sub_cancel_left, assignedPosition_table hentry]
      omega

end Mapper

/-- If the walk reads the whole assigned string as one passage, nothing is reported, and the
    written characters lead to the places that the passage says. -/
theorem map_of_reads {fragment : Fragment} {container : NodeId} {closingTags : ClosingTags}
    (hbuilt : fragment.Built) (hproper : fragment.Proper container)
    (hsize : (fragment.innerHtml container).length < lengthLimit)
    (hremembers : closingTags.Remembers .byVoidTags) {assigned : Operand RecordId}
    {passage : Passage} (hassigned : assignedText assigned = String.ofList passage.source)
    (hlength : passage.source.length < lengthLimit)
    (hreads : (Mapper.ofAssignment .checked closingTags fragment container assigned {}).Reads
      ((Mapper.ofAssignment .checked closingTags fragment container assigned {}).content container)
      passage []) :
    (map closingTags fragment container assigned {}).diagnostics = [] ∧
      ∀ k place, passage.leads[k]? = some (some place) →
        ((Snapshot.capture fragment container
          (map closingTags fragment container assigned {}).origins).originAt k).map
            ResolvedOrigin.charIndex = some place := by
  let mapper := Mapper.ofAssignment .checked closingTags fragment container assigned {}
  have hsource : mapper.source = ⟨passage.source, _⟩ :=
    Mapper.contentEnd_ofAssignment closingTags fragment container hassigned hlength
  have hread := hreads [] ⟨0, 0⟩ (by rw [show mapper.source.chars = _ by rw [hsource]]; simp)
    rfl (by rw [show mapper.source.contentEnd = _ by rw [hsource]]; simp)
  have hlays : mapper.Lays _ _ := Mapper.lays_content hbuilt hremembers.eq_not_isVoid hproper
  have hwritten : passage.leads.length = (fragment.innerHtml container).length := by
    have hcount := hread.written.symm.trans (hlays ⟨0, 0⟩).1
    rw [Nat.zero_add, Nat.zero_add] at hcount
    exact hcount.trans (congrArg List.length (Fragment.written_contentPieces [] hbuilt hproper))
  refine ⟨(Mapper.clean_map_iff ..).mpr ⟨hread.clean, ?_⟩, fun k place hentry => ?_⟩
  · rw [hread.assigned, show mapper.source.contentEnd = _ by rw [hsource], List.length_nil,
      Nat.zero_add]
  · obtain ⟨hplace, mapped, hmem, hleads⟩ := hread.leads k place hentry
    rw [List.length_nil, Nat.zero_add, Nat.zero_add, Nat.zero_add, hwritten] at hleads
    have hmem := (Mapper.origins_map closingTags fragment container assigned {}) ▸ hmem
    exact originAt_of_leadsTo hbuilt hproper hsize hremembers hmem hleads
      (Nat.lt_of_le_of_lt hplace hlength)

end Provenance.Markup
