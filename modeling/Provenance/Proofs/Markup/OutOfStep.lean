import Provenance.Proofs.Markup.TextReading

/-! # References that are written with another length

When a reference is on both sides, a correction table takes it for the same one without a look at
its lengths. If they differ, as those of `&#60;` and `&lt;` do, the two sides are out of step from
there on: plain text leads as far from its place as the lengths differ. Unless what follows brings
the sides together again by chance, the mapping ends elsewhere and reports it. What comes before
such a reference is not touched by it.
-/

namespace Provenance.Markup

namespace CharSource

/-- Whether a piece is a plain character, a line end, or a reference. -/
def Sound : CharSource → Prop
  | itself c => c ≠ '\r' ∧ escapeTextChar c = [c]
  | lineEnd => True
  | reference body _ => body ≠ [] ∧ (∀ d ∈ body, isReferenceChar d = true) ∧
      body.length + 2 ≤ referenceWindow

instance : (piece : CharSource) → Decidable piece.Sound
  | itself c => inferInstanceAs (Decidable (c ≠ '\r' ∧ escapeTextChar c = [c]))
  | lineEnd => inferInstanceAs (Decidable True)
  | reference body _ =>
    decidable_of_iff (body ≠ [] ∧ body.all isReferenceChar = true ∧
      body.length + 2 ≤ referenceWindow) (by rw [List.all_eq_true]; rfl)

end CharSource

theorem ne_of_escapeTextChar_eq {c : Char} (hplain : escapeTextChar c = [c]) : c ≠ '&' := by
  rintro rfl
  cases hplain

/-- A text around a reference that is written as a reference of another length, with plain
    characters behind it. Everything before the reference fits. -/
structure Misfit where
  front : List CharSource
  body : List Char
  char : Char
  plain : List Char
  back : List CharSource
  front_fit : CharSource.Fit escapeTextChar front
    ('&' :: (body ++ ';' :: (plain ++ back.flatMap CharSource.source)))
  body_ne : body ≠ []
  body_chars : ∀ d ∈ body, isReferenceChar d = true
  body_le : body.length + 2 ≤ referenceWindow
  escaped : escapeTextChar char ≠ [char]
  length_ne : (escapeTextChar char).length ≠ body.length + 2
  plain_chars : ∀ d ∈ plain, d ≠ '\r' ∧ escapeTextChar d = [d]

/-- At the end of the content nothing more counts as added. -/
theorem Source.corrections_at_end {source : Source .checked} {keeps : Bool} {position : Int}
    (hle : source.contentEnd ≤ position) (text : List Char) (added : Int) :
    (source.corrections keeps text 0 position added).2 = added := by
  cases text with
  | nil => rfl
  | cons c rest => rw [corrections_stop c rest hle]

namespace Misfit

def pieces (misfit : Misfit) : List CharSource :=
  misfit.front ++ .reference misfit.body misfit.char ::
    (misfit.plain.map CharSource.itself ++ misfit.back)

theorem source_pieces (misfit : Misfit) :
    misfit.pieces.flatMap CharSource.source = misfit.front.flatMap CharSource.source ++
      '&' :: (misfit.body ++ ';' :: (misfit.plain ++ misfit.back.flatMap CharSource.source)) := by
  rw [pieces, List.flatMap_append, List.flatMap_cons, List.flatMap_append,
    CharSource.flatMap_source_itself]
  simp [CharSource.source]

theorem length_source (misfit : Misfit) :
    (misfit.pieces.flatMap CharSource.source).length =
      (misfit.front.flatMap CharSource.source).length + (misfit.body.length + 2) +
        misfit.plain.length + (misfit.back.flatMap CharSource.source).length := by
  rw [misfit.source_pieces]
  simp only [List.length_append, List.length_cons]
  omega

/-- The reference that is written. -/
theorem exists_name (misfit : Misfit) :
    ∃ name, escapeTextChar misfit.char = '&' :: (name ++ [';']) ∧ name ≠ [] ∧
      (∀ d ∈ name, isReferenceChar d = true) ∧ name.length + 2 ≤ referenceWindow := by
  rcases escaping_text misfit.char with ⟨hplain, -⟩ | ⟨name, hname, hne, hall, hlength⟩
  · exact absurd hplain misfit.escaped
  · exact ⟨name, hname, hne, List.all_eq_true.mp hall, hlength⟩

theorem written_pieces (misfit : Misfit) :
    misfit.pieces.flatMap (CharSource.written escapeTextChar) =
      misfit.front.flatMap (CharSource.written escapeTextChar) ++
        (escapeTextChar misfit.char ++
          (misfit.plain ++ misfit.back.flatMap (CharSource.written escapeTextChar))) := by
  have hplain : (misfit.plain.map CharSource.itself).flatMap
      (CharSource.written escapeTextChar) = misfit.plain := by
    rw [List.flatMap_map]
    calc misfit.plain.flatMap escapeTextChar = misfit.plain.flatMap fun d => [d] :=
          List.flatMap_congr fun d hchar => (misfit.plain_chars d hchar).2
      _ = misfit.plain := List.flatMap_singleton' misfit.plain
  rw [pieces, List.flatMap_append, List.flatMap_cons, List.flatMap_append, hplain]
  rfl

theorem length_written (misfit : Misfit) :
    (misfit.pieces.flatMap (CharSource.written escapeTextChar)).length =
      (misfit.front.flatMap (CharSource.written escapeTextChar)).length +
        (escapeTextChar misfit.char).length + misfit.plain.length +
          (misfit.back.flatMap (CharSource.written escapeTextChar)).length := by
  rw [misfit.written_pieces]
  simp only [List.length_append]
  omega

/-- A text of sound pieces fits, or one of its references is the first that does not. What is
    plain behind that one goes on up to a line end or another reference. -/
theorem fit_or_exists {pieces : List CharSource} (hsound : ∀ piece ∈ pieces, piece.Sound) :
    CharSource.Fit escapeTextChar pieces [] ∨ ∃ misfit : Misfit, misfit.pieces = pieces ∧
      ∀ c, misfit.back.head? ≠ some (.itself c) := by
  induction pieces with
  | nil => exact .inl trivial
  | cons piece pieces ih =>
      have hpiece := hsound piece List.mem_cons_self
      have hpieces := fun other hother => hsound other (List.mem_cons_of_mem piece hother)
      by_cases hfits : piece.Fits escapeTextChar (pieces.flatMap CharSource.source ++ [])
      · rcases ih hpieces with hfit | ⟨misfit, rfl, hhead⟩
        · exact .inl ⟨hfits, hfit⟩
        · rw [List.append_nil, misfit.source_pieces] at hfits
          exact .inr ⟨{ misfit with
            front := piece :: misfit.front
            front_fit := ⟨hfits, misfit.front_fit⟩ }, rfl, hhead⟩
      · cases piece with
        | itself c =>
            refine absurd ⟨hpiece.1, ?_⟩ hfits
            rintro ⟨body, rest, heq, -⟩
            exact ne_of_escapeTextChar_eq hpiece.2 (List.cons.inj heq).1
        | lineEnd => exact absurd trivial hfits
        | reference body c =>
            obtain ⟨hne, hall, hshort⟩ := hpiece
            obtain ⟨hescaped, hlength⟩ := not_or.mp fun hescape =>
              hfits ⟨hne, hall, hshort, hescape⟩
            obtain ⟨plain, back, rfl, hhead⟩ := CharSource.exists_itself_front pieces
            exact .inr ⟨{
              front := []
              body, plain, back
              char := c
              front_fit := trivial
              body_ne := hne
              body_chars := hall
              body_le := hshort
              escaped := hescaped
              length_ne := hlength
              plain_chars := fun d hchar =>
                hpieces (.itself d) (List.mem_append_left back (List.mem_map_of_mem hchar)) },
              rfl, hhead⟩

/-- How many characters, from the reference on, are passed one by one on both sides. -/
def abreast (misfit : Misfit) : Nat :=
  min (escapeTextChar misfit.char).length (misfit.body.length + 2) + misfit.plain.length

theorem abreast_le (misfit : Misfit) :
    misfit.abreast ≤ (escapeTextChar misfit.char).length + misfit.plain.length ∧
      misfit.abreast ≤ misfit.body.length + 2 + misfit.plain.length := by
  unfold abreast
  omega

/-- From the reference on both sides go on one by one, and if nothing follows, no character counts
    as added. -/
theorem corrections_from (misfit : Misfit) {source : Source .checked} {before : List Char}
    (hsource : source.chars = before ++ '&' :: (misfit.body ++ ';' ::
      (misfit.plain ++ misfit.back.flatMap CharSource.source)))
    (hend : (before.length + (misfit.body.length + 2) + misfit.plain.length : Nat) ≤
      source.contentEnd) (added : Int) :
    ∃ entries total, source.corrections false (escapeTextChar misfit.char ++ (misfit.plain ++
        misfit.back.flatMap (CharSource.written escapeTextChar))) 0 before.length added =
      (List.replicate misfit.abreast (-added) ++ entries, total) ∧
      (misfit.back = [] → source.contentEnd =
        (before.length + (misfit.body.length + 2) + misfit.plain.length : Nat) →
          total = added) := by
  obtain ⟨name, hname, hne, hall, hlength⟩ := misfit.exists_name
  let count := min name.length misfit.body.length + 1 + misfit.plain.length
  let after := source.corrections false ((name ++ ';' :: misfit.plain).drop count ++
    misfit.back.flatMap (CharSource.written escapeTextChar)) 0 (before.length + 1 + count : Nat)
      added
  have hcount : misfit.abreast = count + 1 := by
    simp only [abreast, hname, List.length_cons, List.length_append, List.length_nil, count]
    omega
  refine ⟨after.1, after.2, ?_, fun hback hstop => ?_⟩
  · rw [hname, List.cons_append, List.append_assoc, List.singleton_append, hcount]
    refine Source.corrections_abreast misfit.body_ne misfit.body_chars misfit.body_le hne
      hall hlength (fun d hchar => ?_) hsource ?_ ?_ ?_ _ added
    · exact ⟨ne_of_escapeTextChar_eq (misfit.plain_chars d hchar).2, (misfit.plain_chars d hchar).1⟩
    · simp only [List.length_append, List.length_cons, count]
      omega
    · simp only [List.length_append, List.length_cons, count]
      omega
    · simp only [count]
      omega
  · -- Either nothing more is written, or the end of the content is reached.
    by_cases hle : name.length ≤ misfit.body.length
    · have hwritten : (name ++ ';' :: misfit.plain).drop count = [] := by
        refine List.drop_of_length_le ?_
        simp only [List.length_append, List.length_cons, count]
        omega
      simp only [after, hwritten, hback]
      rfl
    · refine Source.corrections_at_end ?_ _ added
      rw [hstop]
      simp only [count]
      omega

/-- The front of such a text leads to its places, and the reference and the plain characters
    behind it lead on one by one from there. -/
theorem table (misfit : Misfit) {source : Source .checked}
    (hsource : source.chars = misfit.pieces.flatMap CharSource.source)
    (hend : source.contentEnd = (source.chars.length : Nat)) :
    let table := source.corrections false
      (misfit.pieces.flatMap (CharSource.written escapeTextChar)) 0 0 0
    let written := (misfit.front.flatMap (CharSource.written escapeTextChar)).length
    let passed := (misfit.front.flatMap CharSource.source).length
    (∀ (k place : Nat), (CharSource.leads escapeTextChar misfit.front)[k]? = some place →
      table.1[k]? = some ((place : Int) - k)) ∧
    (∀ k < misfit.abreast,
      table.1[written + k]? = some (((passed + k : Nat) : Int) - (written + k : Nat))) ∧
    (misfit.back = [] → table.2 = (written : Int) - passed) := by
  intro table written passed
  have hlength : source.chars.length = _ :=
    (congrArg List.length hsource).trans misfit.length_source
  rw [misfit.source_pieces] at hsource
  let tail := escapeTextChar misfit.char ++
    (misfit.plain ++ misfit.back.flatMap (CharSource.written escapeTextChar))
  have hsteps : ∀ front piece back, misfit.front = front ++ piece :: back →
      source.StepsOver false escapeTextChar ([] ++ front.flatMap CharSource.source) piece
        (back.flatMap (CharSource.written escapeTextChar) ++ tail) := by
    intro front piece back heq
    have hfit := misfit.front_fit
    rw [heq] at hfit hsource
    refine Source.stepsOver_of_fit escaping_text rfl hfit hsource ?_ _
    rw [← heq, hend, hlength, List.length_nil]
    omega
  have hfront := Source.corrections_append hsteps 0
  obtain ⟨entries, total, hrest, htotal⟩ := misfit.corrections_from hsource
    (by rw [hend, hlength]; exact Int.ofNat_le.mpr (Nat.le_add_right _ _)) (written - passed)
  have htable : table = (CharSource.entries escapeTextChar misfit.front 0 ++
      (List.replicate misfit.abreast (-((written : Int) - passed)) ++ entries), total) := by
    rw [← misfit.written_pieces] at hfront
    simp only [List.length_nil, Nat.zero_add, Int.zero_add] at hfront
    exact hfront.trans (by rw [hrest])
  have hentries : (CharSource.entries escapeTextChar misfit.front 0).length = written :=
    CharSource.length_entries misfit.front 0
  rw [htable]
  refine ⟨fun k place hget => ?_, fun k hindex => ?_, fun hback => htotal hback ?_⟩
  · have hentry : (CharSource.entries escapeTextChar misfit.front 0)[k]? =
        some ((place : Int) - k) := by
      rw [CharSource.entries, List.getElem?_mapIdx, hget, Option.map_some, Int.sub_zero]
    obtain ⟨hlt, -⟩ := List.getElem?_eq_some_iff.mp hentry
    rw [List.getElem?_append_left hlt, hentry]
  · have hentry : -((written : Int) - passed) =
      ((passed + k : Nat) : Int) - (written + k : Nat) := by
      omega
    rw [List.getElem?_append_right (by rw [hentries]; exact Nat.le_add_right _ _), hentries,
      Nat.add_sub_cancel_left, List.getElem?_append_left (by rwa [List.length_replicate]),
      List.getElem?_replicate, if_pos hindex, hentry]
  · rw [hend, hlength, hback]
    rfl

/-! ## As a single text -/

section SingleText

variable {misfit : Misfit} {fragment : Fragment} {container child : NodeId}
  {closingTags : ClosingTags} {assigned : Operand RecordId}
  (hchild : fragment.children container = [child])
  (hraw : isRawText (fragment.tag container) = false)
  (hkeeps : keepsReferences (fragment.tag container) = false)
  (hcontent : fragment.content? child =
    some (String.ofList (misfit.pieces.map CharSource.decoded)))
  (hassigned : assignedText assigned = String.ofList (misfit.pieces.flatMap CharSource.source))
  (hlength : (assignedText assigned).length < lengthLimit)

include hchild hraw hcontent

theorem innerHtml_eq : fragment.innerHtml container =
    misfit.pieces.flatMap (CharSource.written escapeTextChar) := by
  rw [Fragment.innerHtml_of_text hchild hcontent, escapeText_of_not_raw hraw,
    String.toList_ofList, CharSource.flatMap_decoded]

theorem length_innerHtml : (fragment.innerHtml container).length =
    (misfit.front.flatMap (CharSource.written escapeTextChar)).length +
      (escapeTextChar misfit.char).length + misfit.plain.length +
        (misfit.back.flatMap (CharSource.written escapeTextChar)).length := by
  rw [innerHtml_eq hchild hraw hcontent, length_written]

omit hchild hraw hcontent in
include hassigned in
theorem length_assigned : (assignedText assigned).length =
    (misfit.front.flatMap CharSource.source).length + (misfit.body.length + 2) +
      misfit.plain.length + (misfit.back.flatMap CharSource.source).length := by
  rw [hassigned, String.length_ofList, length_source]

include hkeeps hassigned hlength

/-- The correction table of a single text is the one of its pieces. -/
theorem table_text (closingTags : ClosingTags) :
    let source := (Mapper.ofAssignment .checked closingTags fragment container assigned {}).source
    source.chars = misfit.pieces.flatMap CharSource.source ∧
    source.contentEnd = (source.chars.length : Nat) ∧
    source.corrections false (misfit.pieces.flatMap (CharSource.written escapeTextChar)) 0 0 0 =
      source.table (fragment.tag container) (fragment.innerHtml container) 0 := by
  intro source
  rw [hassigned, String.length_ofList] at hlength
  have hsource : source = ⟨misfit.pieces.flatMap CharSource.source, _⟩ :=
    Mapper.contentEnd_ofAssignment closingTags fragment container hassigned hlength
  refine ⟨by rw [hsource], by rw [hsource], ?_⟩
  rw [← innerHtml_eq hchild hraw hcontent, ← hkeeps]
  rfl

variable (hbuilt : fragment.Built) (hremembers : closingTags.Remembers .byVoidTags)
  (hsize : (fragment.innerHtml container).length < lengthLimit)

include hbuilt hremembers hsize

/-- What is before the reference leads to its places. -/
theorem lead_front {front back : List CharSource} {piece : CharSource}
    (hfront : misfit.front = front ++ piece :: back) {relative : Nat}
    (hlt : relative < (piece.written escapeTextChar).length) :
    ((Snapshot.capture fragment container
      (map closingTags fragment container assigned {}).origins).originAt
        ((front.flatMap (CharSource.written escapeTextChar)).length + relative)).map
          ResolvedOrigin.charIndex =
            some ((front.flatMap CharSource.source).length + piece.lead relative) := by
  obtain ⟨hchars, hend, htable⟩ :=
    table_text hchild hraw hkeeps hcontent hassigned hlength closingTags
  obtain ⟨hentries, -, -⟩ := misfit.table hchars hend
  rw [htable] at hentries
  have hlead := CharSource.getElem?_leads front back hlt
  rw [← hfront] at hlead
  have hinside := (List.getElem?_eq_some_iff.mp hlead).1
  have hplace := CharSource.lt_of_mem_leads
    (fun piece hmem _ => misfit.front_fit.lead_lt hmem) (List.mem_of_getElem? hlead)
  rw [CharSource.length_leads] at hinside
  have hwritten := length_innerHtml hchild hraw hcontent
  have hgiven := length_assigned hassigned
  exact originAt_of_table hbuilt hremembers hchild hcontent hsize (by omega) (by omega)
    (hentries _ _ hlead)

/-- From the reference on, the characters lead on one by one. -/
theorem lead_abreast {k : Nat} (hlt : k < misfit.abreast) :
    ((Snapshot.capture fragment container
      (map closingTags fragment container assigned {}).origins).originAt
        ((misfit.front.flatMap (CharSource.written escapeTextChar)).length + k)).map
          ResolvedOrigin.charIndex =
            some ((misfit.front.flatMap CharSource.source).length + k) := by
  obtain ⟨hchars, hend, htable⟩ :=
    table_text hchild hraw hkeeps hcontent hassigned hlength closingTags
  obtain ⟨-, hentries, -⟩ := misfit.table hchars hend
  rw [htable] at hentries
  obtain ⟨hkept, hpassed⟩ := misfit.abreast_le
  have hwritten := length_innerHtml hchild hraw hcontent
  have hgiven := length_assigned hassigned
  exact originAt_of_table hbuilt hremembers hchild hcontent hsize (by omega) (by omega)
    (hentries k hlt)

omit hbuilt hremembers hsize

/-- The mapping ends elsewhere if nothing but plain text follows. -/
theorem diagnostics_eq (closingTags : ClosingTags) (hback : misfit.back = []) :
    let reached : Int := (assignedText assigned).length +
      (escapeTextChar misfit.char).length - (misfit.body.length + 2 : Nat)
    (map closingTags fragment container assigned {}).diagnostics =
      [⟨(fragment.innerHtml container).length, reached,
        .endsElsewhere reached (assignedText assigned).length⟩] := by
  intro reached
  obtain ⟨hchars, hend, htable⟩ :=
    table_text hchild hraw hkeeps hcontent hassigned hlength closingTags
  obtain ⟨-, -, htotal⟩ := misfit.table hchars hend
  rw [htable] at htotal
  have hwritten := length_innerHtml hchild hraw hcontent
  have hgiven := length_assigned hassigned
  rw [hback, List.flatMap_nil, List.length_nil] at hwritten hgiven
  have hreached {total : Int}
      (htotal : total = (misfit.front.flatMap (CharSource.written escapeTextChar)).length -
        (misfit.front.flatMap CharSource.source).length) :
      (fragment.innerHtml container).length - total = reached := by
    simp only [reached]
    omega
  have hne := misfit.length_ne
  have hstops : reached ≠ (assignedText assigned).length := by
    simp only [reached]
    omega
  rw [hchars, ← String.length_ofList, ← hassigned] at hend
  rw [diagnostics_of_table hchild hcontent, hreached (htotal hback), hend, if_neg hstops,
    UInt64.toNat_ofNat_of_lt' (Nat.lt_trans hlength (by decide))]

end SingleText

end Misfit

/-- A text of plain characters, line ends and references is undone, or one of its references is
    written as a reference of another length. What is before the first such reference leads to its
    places. From there on the characters lead on one by one, through the reference and the plain
    text behind it, as if the reference had been assigned with the length that is written. If
    nothing else follows, the mapping reports that it has ended elsewhere, by the difference of the
    two lengths. -/
theorem map_text_out_of_step {fragment : Fragment} {container child : NodeId}
    {closingTags : ClosingTags} {assigned : Operand RecordId} {pieces : List CharSource}
    (hbuilt : fragment.Built) (hremembers : closingTags.Remembers .byVoidTags)
    (hchild : fragment.children container = [child])
    (hraw : isRawText (fragment.tag container) = false)
    (hkeeps : keepsReferences (fragment.tag container) = false)
    (hcontent : fragment.content? child =
      some (String.ofList (pieces.map CharSource.decoded)))
    (hassigned : assignedText assigned = String.ofList (pieces.flatMap CharSource.source))
    (hsize : (fragment.innerHtml container).length < lengthLimit)
    (hlength : (assignedText assigned).length < lengthLimit) :
    let report := map closingTags fragment container assigned {}
    let lead index := ((Snapshot.capture fragment container report.origins).originAt index).map
      ResolvedOrigin.charIndex
    let undone (front : List CharSource) (piece : CharSource) :=
      ∀ relative < (piece.written escapeTextChar).length,
        lead ((front.flatMap (CharSource.written escapeTextChar)).length + relative) =
          some ((front.flatMap CharSource.source).length + piece.lead relative)
    ((∀ piece ∈ pieces, piece.Sound) →
      (report.diagnostics = [] ∧
        ∀ front piece back, pieces = front ++ piece :: back → undone front piece) ∨
      ∃ misfit : Misfit, misfit.pieces = pieces ∧ ∀ c, misfit.back.head? ≠ some (.itself c)) ∧
    ∀ misfit : Misfit, misfit.pieces = pieces →
      let written := (misfit.front.flatMap (CharSource.written escapeTextChar)).length
      let passed := (misfit.front.flatMap CharSource.source).length
      let kept := (escapeTextChar misfit.char).length
      let given := misfit.body.length + 2
      let reached : Int := (assignedText assigned).length + kept - given
      (∀ front piece back, misfit.front = front ++ piece :: back → undone front piece) ∧
      (∀ k < misfit.abreast, lead (written + k) = some (passed + k)) ∧
      (misfit.back = [] → report.diagnostics = [⟨(fragment.innerHtml container).length, reached,
        .endsElsewhere reached (assignedText assigned).length⟩]) := by
  intro report lead undone
  refine ⟨fun hsound => ?_, ?_⟩
  · refine (Misfit.fit_or_exists hsound).imp_left fun hfit => ?_
    exact map_of_fit hbuilt hremembers hchild hraw hkeeps hfit hcontent hassigned hsize hlength
  rintro misfit rfl written passed kept given reached
  refine ⟨fun front piece back hfront relative hlt => ?_, fun k hlt => ?_, fun hback => ?_⟩
  · exact Misfit.lead_front hchild hraw hkeeps hcontent hassigned hlength hbuilt hremembers hsize
      hfront hlt
  · exact Misfit.lead_abreast hchild hraw hkeeps hcontent hassigned hlength hbuilt hremembers hsize
      hlt
  · exact Misfit.diagnostics_eq hchild hraw hkeeps hcontent hassigned hlength closingTags hback

/-- An angle bracket by its number, between a decoded reference and two lines of plain text. -/
def lessByNumber : Misfit where
  front := [.itself 'x', .reference "eacute".toList 'é']
  body := "#60".toList
  char := '<'
  plain := ['a', '\n', 'b']
  back := []
  front_fit := by decide
  body_ne := by decide
  body_chars := List.all_eq_true.mp (by decide)
  body_le := by decide
  escaped := by decide
  length_ne := by decide
  plain_chars := by simp [escapeTextChar]

/-- The `é` leads to its place, and the `a` to the semicolon before it. -/
theorem map_text_out_of_step_number :
    let fragment := (Fragment.new "div").appendText 0 "xé<a\nb"
    let report := map ClosingTags.byVoidTags.folded fragment 0
      { value := .str "x&eacute;&#60;a\nb" } {}
    ((Snapshot.capture fragment 0 report.origins).originAt 1).map ResolvedOrigin.charIndex =
      some 1 ∧
    ((Snapshot.capture fragment 0 report.origins).originAt 6).map ResolvedOrigin.charIndex =
      some 13 ∧
    report.diagnostics = [⟨9, 16, .endsElsewhere 16 17⟩] := by
  intro fragment report
  have hbuilt : fragment.Built := .text (.new _) _ _
  obtain ⟨-, hmisfit⟩ := @map_text_out_of_step fragment 0 1 _
    { value := .str "x&eacute;&#60;a\nb" } lessByNumber.pieces hbuilt
    (ClosingTags.folded_remembers _)
    (by decide) (by decide) (by decide) (by decide) (by decide) (by decide) (by decide +kernel)
  obtain ⟨hfront, hrun, hreport⟩ := hmisfit lessByNumber rfl
  refine ⟨?_, hrun 4 (by decide), (hreport rfl).trans (by decide)⟩
  exact hfront [.itself 'x'] _ [] rfl 0 (by decide)

/-- The only plain character behind such a reference leads to the semicolon, and a mismatch is
    reported. -/
theorem map_text_strays :
    let pieces : List CharSource := [.reference "#60".toList '<', .itself 'a']
    let fragment := (Fragment.new "div").appendText 0 "<a"
    let report := map ClosingTags.byVoidTags.folded fragment 0 { value := .str "&#60;a" } {}
    (∀ piece ∈ pieces, piece.Sound) ∧ fragment.Built ∧ fragment.children 0 = [1] ∧
    fragment.content? 1 = some (String.ofList (pieces.map CharSource.decoded)) ∧
    "&#60;a" = String.ofList (pieces.flatMap CharSource.source) ∧
    fragment.innerHtml 0 = "&lt;a".toList ∧
    report.diagnostics = [⟨5, 5, .endsElsewhere 5 6⟩] ∧
    ((Snapshot.capture fragment 0 report.origins).originAt 4).map ResolvedOrigin.charIndex =
      some 4 := by
  refine ⟨by decide, .text (.new _) _ _, by decide, by decide, by decide, by decide, ?_, ?_⟩
  · decide +kernel
  · decide +kernel

end Provenance.Markup
