import Provenance.Proofs.Markup.AttributeSource
import Provenance.Proofs.Markup.Openings
import Provenance.Proofs.Markup.Spelling
import Provenance.Proofs.Markup.Stepping
import Provenance.Proofs.Text.Blank

/-! # Reading attributes

The mapper reads an attribute in three steps: the blanks and the name, the equals sign with the
blanks around it, and the value. It makes up for each difference as it goes along, so that it
stands at the beginning of the next attribute in the end, and every written character leads to the
part of the attribute that it stands for.
-/

namespace Provenance.Markup

open Provenance.Text (isBlank leadingBlanks leadingBlanks_take getElem?_take_blanks
  getElem?_leadingBlanks)

namespace Mapper

variable {mapper : Mapper .checked} {attr : AttributeSource} {value : ValueSource}
  {before rest : List Char}

theorem leadingBlanks_of_fits (hfits : attr.Fits rest)
    (hsource : mapper.source.chars = before ++ (attr.source ++ rest)) :
    leadingBlanks (mapper.source.slice before.length 100) = attr.blanks.length := by
  obtain ⟨c, name, hname⟩ := List.exists_cons_of_ne_nil hfits.name_ne
  have hblank := hfits.name c (by rw [hname]; exact List.mem_cons_self)
  rw [Source.slice_of_append hsource, AttributeSource.source, List.append_assoc, List.append_assoc]
  refine leadingBlanks_take hfits.blanks (fun d hnext => ?_) hfits.blanks_le
  rw [hname] at hnext
  exact Option.some.inj hnext ▸ hblank.1

theorem slice_of_name (hsource : mapper.source.chars = before ++ (attr.source ++ rest))
    (count : Nat) :
    mapper.source.slice (before.length + attr.blanks.length + attr.parsed.name.length) count =
      ((attr.value.map ValueSource.source).getD [] ++ rest).take count := by
  have hsplit : mapper.source.chars = before ++ (attr.blanks ++ attr.name ++
      ((attr.value.map ValueSource.source).getD [] ++ rest)) := by
    rw [hsource, AttributeSource.source, List.append_assoc]
  refine Source.slice_after hsplit ?_ count
  rw [attr.length_name, List.length_append]
  omega

/-- A name without a value is taken as one. -/
theorem spelling_of_omitted (hfits : attr.Fits rest) (hvalue : attr.value = none)
    (hsource : mapper.source.chars = before ++ (attr.source ++ rest)) (tag : String) :
    mapper.spelling tag attr.parsed before.length =
      let added : Int := 1 - attr.blanks.length
      { nameOffset := -added, valueOffsets := [-(added + 1), -(added + 2), -(added + 3)],
        added := added + 3, mismatches := [] } := by
  have hblanks := leadingBlanks_of_fits hfits hsource
  have hpos : attr.blanks.length ≠ 0 := Nat.ne_of_gt hfits.blanks_pos
  have hrest := slice_of_name hsource 50
  rw [hvalue, Option.map_none, Option.getD_none, List.nil_append] at hrest
  -- Only blanks are in the window, or what is behind them.
  have hequals : (rest.take 50)[leadingBlanks (rest.take 50)]? ≠ some '=' := by
    rcases getElem?_leadingBlanks rest 50 with hnone | hhead
    · rw [hnone]
      exact fun h => nomatch h
    · rw [hhead]
      exact hfits.omitted hvalue
  have hempty : attr.parsed.value = "" := by
    rw [AttributeSource.parsed, hvalue]
    rfl
  simp only [spelling, hblanks, if_neg hpos, hrest, if_neg hequals, hempty]
  rfl

/-- A value is found, and where it begins. -/
theorem spelling_of_value (hfits : attr.Fits rest) (hvalue : attr.value = some value)
    (hchars : mapper.source.chars = before ++ (attr.source ++ rest)) (tag : String) :
    mapper.spelling tag attr.parsed before.length =
      let added : Int := 1 - attr.blanks.length
      let offsets := mapper.valueOffsets tag (escapeAttribute attr.parsed.value.toList)
        value.quote.isSome (added - value.before.length)
        (added - value.before.length - value.after.length)
        (before.length + attr.blanks.length + attr.name.length + value.opening.length : Nat)
      { nameOffset := -added, valueOffsets := offsets.1, added := offsets.2,
        mismatches := [] } := by
  have hblanks := leadingBlanks_of_fits hfits hchars
  have hpos : attr.blanks.length ≠ 0 := Nat.ne_of_gt hfits.blanks_pos
  have hfit := hfits.value value hvalue
  -- What the mapper looks at behind the blanks after the equals sign: a quote, or the text.
  let tail := value.mark ++ (value.text ++ (value.mark ++ rest))
  obtain ⟨c, hhead, hblank, hquoted⟩ := hfit.exists_head (value.mark ++ rest)
  have hsource : value.source ++ rest = value.before ++ '=' :: (value.after ++ tail) := by
    simp [ValueSource.source, ValueSource.opening, tail]
  have hequalsBlanks : leadingBlanks ((value.before ++ '=' :: (value.after ++ tail)).take 50) =
      value.before.length :=
    leadingBlanks_take hfit.before
      (fun d hnext => Option.some.inj hnext ▸ (by decide : isBlank '=' = false))
      (Nat.le_succ_of_le hfit.before_le)
  have hequals : ((value.before ++ '=' :: (value.after ++ tail)).take 50)[value.before.length]? =
      some '=' := getElem?_take_blanks (Nat.lt_succ_of_le hfit.before_le)
  have hquoteBlanks : leadingBlanks ((value.after ++ tail).take 50) = value.after.length :=
    leadingBlanks_take hfit.after
      (fun d hnext => Option.some.inj (hhead.symm.trans hnext) ▸ hblank)
      (Nat.le_succ_of_le hfit.after_le)
  have hquote : ((value.after ++ tail).take 50)[value.after.length]? = some c :=
    (getElem?_take_blanks (Nat.lt_succ_of_le hfit.after_le)).trans hhead
  have hrest := slice_of_name hchars 50
  rw [hvalue, Option.map_some, Option.getD_some, hsource] at hrest
  have hafter : mapper.source.slice (before.length + attr.blanks.length +
      attr.parsed.name.length + value.before.length + 1) 50 = (value.after ++ tail).take 50 := by
    have hsplit : mapper.source.chars = before ++ (attr.blanks ++ attr.name ++ value.before ++
        ['='] ++ (value.after ++ tail)) := by
      rw [hchars, AttributeSource.source, hvalue, Option.map_some, Option.getD_some]
      simp [ValueSource.source, ValueSource.opening, tail]
    refine Source.slice_after hsplit ?_ 50
    rw [attr.length_name]
    simp only [List.length_append, List.length_singleton]
    omega
  have hposition : (before.length : Int) + attr.blanks.length + attr.parsed.name.length +
      value.before.length + 1 + value.after.length + (if value.quote.isSome then 1 else 0) =
        (before.length + attr.blanks.length + attr.name.length + value.opening.length : Nat) := by
    rw [attr.length_name, value.length_opening, value.length_mark]
    split
    · omega
    · omega
  simp only [spelling, hblanks, if_neg hpos, hrest, hequalsBlanks, hequals, if_true, hafter,
    hquoteBlanks, hquote, hquoted, hposition]
  rfl

/-- The correction table of a value leads to the pieces of its text. -/
theorem table_of_fits (hfit : value.Fits rest)
    (hchars : mapper.source.chars = before ++ (value.source ++ rest))
    (hend : (before.length + value.source.length : Nat) ≤ mapper.source.contentEnd) {tag : String}
    (hkeeps : keepsReferences tag = false) :
    let table := mapper.source.table tag value.escaped
      (before.length + value.opening.length : Nat)
    table.2 = value.escaped.length - value.text.length ∧
      table.1.length = value.escaped.length ∧
      ∀ (j inner : Nat), (CharSource.leads escapeAttributeChar value.pieces)[j]? = some inner →
        inner < value.text.length ∧ table.1[j]? = some ((inner : Int) - j) := by
  intro table
  have hsource := value.length_source
  have hsplit : mapper.source.chars =
      before ++ value.opening ++ (value.text ++ (value.mark ++ rest)) := by
    rw [hchars, ValueSource.source]
    simp
  obtain ⟨htotal, hlength, hleads⟩ := Source.corrections_pieces escaping_attribute rfl hfit.pieces
    hsplit (by rw [List.length_append]; simp only [ValueSource.text] at hsource; omega) 0
  rw [List.length_append] at htotal hlength hleads
  have htable : table = mapper.source.corrections false
      (value.pieces.flatMap (CharSource.written escapeAttributeChar)) 0
        (before.length + value.opening.length : Nat) 0 := by
    simp only [table, Source.table, hkeeps, ValueSource.escaped]
  rw [← htable] at htotal hlength hleads
  refine ⟨htotal.trans (by rw [Int.zero_add]; rfl), hlength, fun j inner hj => ?_⟩
  have hjoin : (Passage.join (value.pieces.map
      (CharSource.passage escapeAttributeChar))).leads[j]? = some (some inner) := by
    rw [CharSource.join_eq, List.getElem?_map, hj]
    rfl
  obtain ⟨hinner, hentry⟩ := hleads j inner hjoin
  rw [Int.sub_zero] at hentry
  exact ⟨hinner, hentry⟩

/-- The corrections of a value lead to its parts, whatever the correction before it is. -/
theorem valueOffsets_of_fits (hfit : value.Fits rest)
    (hchars : mapper.source.chars = before ++ (value.source ++ rest))
    (hend : (before.length + value.source.length : Nat) ≤ mapper.source.contentEnd) {tag : String}
    (hkeeps : keepsReferences tag = false) (added : Int) :
    let offsets := mapper.valueOffsets tag value.escaped value.quote.isSome
      (added - value.before.length) (added - value.before.length - value.after.length)
      (before.length + value.opening.length : Nat)
    offsets.2 = added + value.escaped.length + 3 - value.source.length ∧
      ∀ (k place : Nat), value.leads[k]? = some place →
        place ≤ value.source.length ∧ offsets.1[k]? = some ((place : Int) - k - added) := by
  intro offsets
  have hsource := value.length_source
  have hopening := value.length_opening
  have hmark := value.length_mark
  obtain ⟨htotal, hlength, hleads⟩ := table_of_fits hfit hchars hend hkeeps
  obtain ⟨-, hequals, hquote, hvalue, hclosing⟩ := valueOffsets_entries value.quote.isSome
    (added - value.before.length) (added - value.before.length - value.after.length) hlength
  have hopened : (if value.quote.isSome then added - value.before.length - value.after.length
      else added - value.before.length - value.after.length + 1) =
        added - value.before.length - value.after.length + 1 - value.mark.length := by
    rw [hmark]
    split
    · omega
    · omega
  simp only [hopened] at hquote hvalue
  -- The closing quote follows the character before it, so that one comes first.
  have hentries : ∀ (k place : Nat), k ≤ value.escaped.length + 1 →
      value.leads[k]? = some place →
        place < value.source.length ∧ offsets.1[k]? = some ((place : Int) - k - added) := by
    intro k place hle hget
    rcases ValueSource.leads_cases hget with ⟨rfl, rfl⟩ | ⟨rfl, rfl⟩ | ⟨j, inner, rfl, rfl, hj⟩ |
      ⟨last, rfl, -, -⟩
    · exact ⟨by omega, hequals.trans (congrArg some (by omega))⟩
    · exact ⟨by omega, hquote.trans (congrArg some (by omega))⟩
    · obtain ⟨hinner, hentry⟩ := hleads j inner hj
      have hentry := (hvalue j (by omega)).trans (congrArg (Option.map _) hentry)
      simp only [Option.map_some] at hentry
      exact ⟨by omega, hentry.trans (congrArg some (by omega))⟩
    · omega
  refine ⟨?_, fun k place hget => ?_⟩
  · refine (mapper.valueOffsets_total ..).trans ?_
    rw [htotal, hsource, hopening, hmark]
    split
    · omega
    · omega
  · rcases ValueSource.leads_cases hget with ⟨rfl, -⟩ | ⟨rfl, -⟩ | ⟨j, inner, rfl, -, hj⟩ |
      ⟨last, rfl, rfl, hlast⟩
    · exact (hentries 0 place (Nat.zero_le _) hget).imp_left Nat.le_of_lt
    · exact (hentries 1 place (Nat.le_add_left 1 _) hget).imp_left Nat.le_of_lt
    · obtain ⟨hlt, -⟩ := List.getElem?_eq_some_iff.mp hj
      rw [CharSource.length_leads] at hlt
      exact (hentries (j + 2) place (Nat.succ_le_succ hlt) hget).imp_left Nat.le_of_lt
    · obtain ⟨hlt, hentry⟩ := hentries _ last (Nat.le_refl _) hlast
      exact ⟨hlt, hclosing.trans (hentry.trans (congrArg some (by omega)))⟩

/-- What the mapper makes of an attribute that was assigned in one of the known ways. -/
theorem spelling_of_fits (hfits : attr.Fits rest)
    (hchars : mapper.source.chars = before ++ (attr.source ++ rest))
    (hend : (before.length + attr.source.length : Nat) ≤ mapper.source.contentEnd) {tag : String}
    (hkeeps : keepsReferences tag = false) :
    let spelling := mapper.spelling tag attr.parsed before.length
    spelling.nameOffset = attr.blanks.length - 1 ∧
      spelling.added = 1 + attr.name.length +
        ((escapeAttribute attr.parsed.value.toList).length + 3) - attr.source.length ∧
      spelling.mismatches = [] ∧
      ∀ (k place : Nat), attr.valueLeads[k]? = some place → place ≤ attr.source.length ∧
        spelling.valueOffsets[k]? = some ((place : Int) - k - (1 + attr.name.length)) := by
  intro spelling
  cases hvalue : attr.value with
  | none =>
      have hspelling : spelling = _ := spelling_of_omitted hfits hvalue hchars tag
      have hsource : attr.source.length = attr.blanks.length + attr.name.length := by
        simp [AttributeSource.source, hvalue]
      have hempty : (escapeAttribute attr.parsed.value.toList).length = 0 := by
        rw [attr.escaped_parsed, hvalue]
        rfl
      rw [hspelling, hsource, hempty]
      dsimp only
      refine ⟨by omega, by omega, rfl, fun k place hget => ?_⟩
      -- The equals sign and both quotes lead to the end of the name.
      simp only [AttributeSource.valueLeads, hvalue] at hget
      have hplace := List.eq_of_mem_replicate (List.mem_of_getElem? hget)
      have hpos := hfits.blanks_pos
      rcases k with _ | _ | _ | k
      · exact ⟨by omega, congrArg some (by omega)⟩
      · exact ⟨by omega, congrArg some (by omega)⟩
      · exact ⟨by omega, congrArg some (by omega)⟩
      · cases hget
  | some value =>
      have hspelling : spelling = _ := spelling_of_value hfits hvalue hchars tag
      have hescaped : escapeAttribute attr.parsed.value.toList = value.escaped := by
        rw [attr.escaped_parsed, hvalue]
        rfl
      have hsource : attr.source.length =
          attr.blanks.length + attr.name.length + value.source.length := by
        simp [AttributeSource.source, hvalue, Nat.add_assoc]
      have hsplit : mapper.source.chars =
          before ++ (attr.blanks ++ attr.name) ++ (value.source ++ rest) := by
        rw [hchars, AttributeSource.source, hvalue]
        simp
      have hnamed : (before ++ (attr.blanks ++ attr.name)).length =
          before.length + attr.blanks.length + attr.name.length := by
        simp only [List.length_append, Nat.add_assoc]
      obtain ⟨htotal, hleads⟩ := valueOffsets_of_fits (hfits.value value hvalue) hsplit
        (by rw [hnamed]; omega) hkeeps (1 - attr.blanks.length)
      rw [hnamed, ← hescaped] at htotal hleads
      rw [hspelling, hsource]
      dsimp only
      refine ⟨by omega, htotal.trans (by omega), rfl, fun k place hget => ?_⟩
      simp only [AttributeSource.valueLeads, hvalue, List.getElem?_map] at hget
      obtain ⟨inner, hinner, rfl⟩ := Option.map_eq_some_iff.mp hget
      obtain ⟨hplace, hentry⟩ := hleads k inner hinner
      exact ⟨Nat.add_le_add_left hplace _, hentry.trans (congrArg some (by omega))⟩

/-- An attribute that was assigned in one of the known ways is read as its passage. -/
theorem reads_attribute (id : NodeId) {tag : String} (hkeeps : keepsReferences tag = false)
    (hfits : attr.Fits rest) :
    mapper.Reads (mapper.attributeSpans id tag attr.parsed) attr.passage rest := by
  intro before cursor hsource hcursor hend
  let target := Target.attribute id attr.parsed.name
  have hspelling := spelling_of_fits hfits hsource hend hkeeps
  have hleads := attr.length_leads
  have hpassage : attr.passage.leads.length = attr.leads.length := List.length_map _
  -- The spelling is taken as it is found: only what was said of it is needed from here on.
  obtain ⟨spelling, heq⟩ : ∃ spelling, mapper.spelling tag attr.parsed before.length = spelling :=
    ⟨_, rfl⟩
  rw [heq] at hspelling
  generalize hvalueLength : (escapeAttribute attr.parsed.value.toList).length + 3 = valueLength at *
  obtain ⟨sums, hwalk⟩ : ∃ sums, mapper.attributeSpans id tag attr.parsed cursor =
      (⟨cursor.written + (1 + attr.name.length) + valueLength, cursor.extra + spelling.added⟩,
        { origins := [
            mapper.origin target .attributeName cursor.written (1 + attr.name.length) cursor.extra
              (some (List.replicate (1 + attr.name.length) spelling.nameOffset)),
            mapper.origin target .attributeValue (cursor.written + (1 + attr.name.length))
              valueLength cursor.extra (some spelling.valueOffsets)],
          diagnostics :=
            spelling.mismatches.map fun cause => ⟨cursor.written, cursor.assigned, cause⟩
          sums }) := by
    simp only [attributeSpans, hcursor, attr.length_name, heq, hvalueLength, target]
    exact ⟨_, rfl⟩
  obtain ⟨hname, hadded, hmismatches, hvalue⟩ := hspelling
  have hassigned : (cursor.written : Int) - cursor.extra = before.length := hcursor
  constructor
  case written =>
      rw [hwalk, hpassage, hleads, Nat.add_assoc]
  case assigned =>
      rw [hwalk]
      simp only [Cursor.assigned, AttributeSource.passage]
      omega
  case clean => rw [hwalk, hmismatches, List.map_nil]
  case leads =>
      intro k place hget
      rw [hpassage, hleads, hwalk]
      simp only [AttributeSource.passage, List.getElem?_map, Option.map_eq_some_iff,
        Option.some.injEq, exists_eq_right] at hget ⊢
      rcases AttributeSource.leads_cases hfits.blanks_pos hget with ⟨hlt, hplace⟩ | ⟨j, rfl, hj⟩
      · have hsource : attr.blanks.length + attr.name.length ≤ attr.source.length := by
          simp only [AttributeSource.source, List.length_append]
          omega
        refine ⟨by omega, _, List.mem_cons_self, target, .attributeName, cursor.written,
          1 + attr.name.length, cursor.extra, _, rfl, by omega, by omega, by omega, ?_⟩
        rw [Nat.add_sub_cancel_left, assignedPosition_some (List.getElem?_replicate_of_lt hlt)]
        omega
      · obtain ⟨hplace, hentry⟩ := hvalue j place hj
        obtain ⟨hlt, -⟩ := List.getElem?_eq_some_iff.mp hget
        refine ⟨hplace, _, List.mem_cons_of_mem _ List.mem_cons_self, target, .attributeValue,
          cursor.written + (1 + attr.name.length), valueLength, cursor.extra, _, rfl, by omega,
          by omega, by omega, ?_⟩
        rw [show cursor.written + (1 + attr.name.length + j) -
          (cursor.written + (1 + attr.name.length)) = j by omega, assignedPosition_some hentry]
        omega

end Mapper

namespace Mapper

variable {mapper : Mapper .checked} {tag : String} {attrs : List AttributeSource}
  {before name rest : List Char}

/-- Attributes that were assigned in known ways, one after another. -/
theorem reads_attributes (id : NodeId) (hkeeps : keepsReferences tag = false)
    (hfit : AttributeSource.Fit attrs rest) :
    mapper.Reads (.all ((attrs.map AttributeSource.parsed).map (mapper.attributeSpans id tag)))
      (.join (attrs.map AttributeSource.passage)) rest := by
  rw [List.map_map]
  refine reads_all fun front attr back heq => ?_
  rw [heq] at hfit
  rw [AttributeSource.source_join]
  exact mapper.reads_attribute id hkeeps hfit.of_append.1

/-- An opening tag that is read where it was assigned leads to its parts. -/
theorem leadsTo_opening (id : NodeId) (hkeeps : keepsReferences tag = false)
    (hfit : AttributeSource.Fit attrs rest) (hname : name.length = tag.length)
    (hchars : mapper.source.chars =
      before ++ ((AttributeSource.tagPassage name attrs).source ++ rest))
    {start : Cursor} (hstart : start.assigned = before.length)
    (hend : (before.length + (AttributeSource.tagPassage name attrs).source.length : Nat) ≤
      mapper.source.contentEnd) {k place : Nat}
    (hentry : (AttributeSource.tagPassage name attrs).leads[k]? = some (some place)) :
    place ≤ (AttributeSource.tagPassage name attrs).source.length ∧
      let opened := mapper.opening id tag (attrs.map AttributeSource.parsed) start
      ∃ mapped ∈ opened.2.origins,
        mapper.LeadsTo opened.1.written mapped (start.written + k)
          (before.length + place : Nat) := by
  have hnamed : mapper.Reads (mapper.span (.node id) .openingTagStart (1 + tag.length))
      (.same ('<' :: name)) ((Passage.join (attrs.map AttributeSource.passage)).source ++ rest) :=
    mapper.reads_span _ _ _ _ (by rw [List.length_cons, hname, Nat.add_comm])
  have hread := hnamed.andThen (mapper.reads_attributes id hkeeps hfit) before start hchars hstart
    hend
  obtain ⟨hplace, mapped, hmem, hleads⟩ := hread.leads k place hentry
  have hlays : mapper.Lays (mapper.opening id tag (attrs.map AttributeSource.parsed)) _ :=
    lays_opening id tag _
  have hwritten := (hlays start).1
  rw [Fragment.written_openingPieces, ← AttributeSource.length_leads_tagPassage hname] at hwritten
  refine ⟨hplace, mapped, ?_, hleads.mono (by rw [hwritten]; exact Nat.le_succ _)⟩
  rcases List.mem_append.mp hmem with hmem | hmem
  · exact List.mem_append_left _ hmem
  · exact List.mem_append_right _ (List.mem_append_left _ hmem)

/-- A part of the assigned string lies inside the content if it lies before the given end. -/
theorem le_contentEnd_ofAssignment {closingTags : ClosingTags} {fragment : Fragment}
    {container : NodeId} {assigned : Operand RecordId} {options : MapOptions} {stop : Nat}
    (hlength : (assignedText assigned).length < lengthLimit)
    (hstop : stop ≤ (assignedText assigned).length)
    (hend : ∀ contentEnd ∈ options.contentEnd, (stop : Int) ≤ contentEnd.toInt64.toInt) :
    stop ≤ (ofAssignment .checked closingTags fragment container assigned
      options).source.contentEnd := by
  cases hcontent : options.contentEnd with
  | some contentEnd =>
      simp only [ofAssignment, MapOptions.stop, hcontent, Option.getD_some]
      exact hend contentEnd hcontent
  | none =>
      simp only [ofAssignment, MapOptions.stop, hcontent, Option.getD_none, UInt64.toInt64_ofNat',
        toInt_ofNat_of_lt hlength]
      exact Int.ofNat_le.mpr hstop

end Mapper

/-- However the attributes of an element were spelled, it is undone exactly: when the first origin
    of its opening tag leads to where the element was assigned, every written character of every
    attribute leads to the part of the attribute that it stands for. -/
theorem map_attributes_undone {fragment : Fragment} {container : NodeId}
    {closingTags : ClosingTags} (hbuilt : fragment.Built) (hproper : fragment.Proper container)
    (hsize : (fragment.innerHtml container).length < lengthLimit)
    (hremembers : closingTags.Remembers .byVoidTags) {assigned : Operand RecordId}
    (hlength : (assignedText assigned).length < lengthLimit) {options : MapOptions} {id : NodeId}
    {tag : String} (hkeeps : keepsReferences tag = false) {attrs : List AttributeSource}
    (hkind : fragment.kind? id = some (.element tag (attrs.map AttributeSource.parsed)))
    {mapped : MappedOrigin}
    (hmem : mapped ∈ (map closingTags fragment container assigned options).origins)
    (htarget : mapped.target = .node id) (haction : mapped.origin.action = .openingTagStart)
    {before name rest : List Char}
    (haligned : mapped.origin.assignedIndex mapped.origin.start.toNat = some before.length)
    (hassigned : (assignedText assigned).toList =
      before ++ '<' :: (name ++ attrs.flatMap AttributeSource.source ++ rest))
    (hname : name.length = tag.length) (hfit : AttributeSource.Fit attrs rest)
    (hend : ∀ contentEnd ∈ options.contentEnd,
      (before.length + (1 + name.length + (attrs.flatMap AttributeSource.source).length) : Nat) ≤
        contentEnd.toInt64.toInt)
    (front : List AttributeSource) (attr : AttributeSource) (back : List AttributeSource)
    (hattrs : attrs = front ++ attr :: back) :
    attr.leads.length = (attributeHtml attr.parsed).length ∧
    ∀ (k place : Nat), attr.leads[k]? = some place →
      ((Snapshot.capture fragment container
        (map closingTags fragment container assigned options).origins).originAt
          (mapped.origin.start.toNat + (1 + name.length +
            ((front.map AttributeSource.parsed).flatMap attributeHtml).length + k))).map
              ResolvedOrigin.charIndex = some (before.length + (1 + name.length +
                (front.flatMap AttributeSource.source).length + place)) := by
  refine ⟨attr.length_leads_eq_html, fun k place hentry => ?_⟩
  let mapper := Mapper.ofAssignment .checked closingTags fragment container assigned options
  obtain ⟨other, node, tag', attributes, start, hnode, hkind', hother, hstart, hstarted, hlast,
    horigins⟩ := opening_of_mem hbuilt hproper hsize hremembers hlength hmem haction haligned
  obtain rfl : id = other := Target.node.inj (htarget.symm.trans hother)
  rw [Fragment.kind_of_get hnode, hkind', Option.some.injEq, NodeKind.element.injEq] at hkind
  obtain ⟨rfl, rfl⟩ := hkind
  have hsource := AttributeSource.source_tagPassage name attrs
  have hsourceLength : (AttributeSource.tagPassage name attrs).source.length =
      1 + name.length + (attrs.flatMap AttributeSource.source).length := by
    rw [hsource, List.length_cons, List.length_append]
    omega
  have hchars : mapper.source.chars =
      before ++ ((AttributeSource.tagPassage name attrs).source ++ rest) := by
    rw [hsource]
    exact hassigned
  have hstop : before.length + (AttributeSource.tagPassage name attrs).source.length ≤
      (assignedText assigned).length := by
    have hall : (assignedText assigned).toList.length = _ := congrArg List.length hchars
    rw [String.length_toList, List.length_append, List.length_append] at hall
    omega
  obtain ⟨hplace, lead, hlead, hleads⟩ :=
    mapper.leadsTo_opening id hkeeps hfit hname hchars hstarted
    (Mapper.le_contentEnd_ofAssignment hlength hstop (hsourceLength ▸ hend))
    (hattrs ▸ AttributeSource.leads_tagPassage name front back hentry)
  rw [hstart]
  exact originAt_of_leadsTo hbuilt hproper hsize hremembers (horigins lead hlead)
    (hleads.mono hlast) (by omega)

/-- Two blanks before a name in capitals and one on each side of the equals sign, a reference
    between single quotes, and a name without a value. -/
def spelledAttributes : List AttributeSource :=
  [⟨[' ', ' '], "CLASS".toList, some ⟨[' '], [' '], some '\'',
      [.itself 'a', .reference "lt".toList '<', .itself 'b']⟩⟩,
    ⟨[' '], "checked".toList, none⟩]

theorem map_attributes_undone_spelled :
    let fragment := (Fragment.new "div").appendElement 0 "p" [⟨"class", "a<b"⟩, ⟨"checked", ""⟩]
    let report := map ClosingTags.byVoidTags.folded fragment 0
      { value := .str "<P  CLASS = 'a&lt;b' checked></P>" } {}
    let leads index := ((Snapshot.capture fragment 0 report.origins).originAt index).map
      ResolvedOrigin.charIndex
    fragment.innerHtml 0 = "<p class=\"a<b\" checked=\"\"></p>".toList ∧
    leads 2 = some 3 ∧ leads 3 = some 4 ∧ leads 8 = some 10 ∧ leads 12 = some 18 ∧
    leads 15 = some 21 ∧ leads 22 = some 27 := by
  intro fragment report leads
  have hbuilt : fragment.Built := .element (.new _) _ _ _
  let mapper := Mapper.ofAssignment .checked ClosingTags.byVoidTags.folded fragment 0
    { value := .str "<P  CLASS = 'a&lt;b' checked></P>" } {}
  have hmem : mapper.origin (.node 1) .openingTagStart 0 2 0 none ∈ report.origins := by
    decide +kernel
  have hundone := @map_attributes_undone fragment 0 _ hbuilt (by decide) (by decide +kernel)
    (ClosingTags.folded_remembers _) { value := .str "<P  CLASS = 'a&lt;b' checked></P>" }
    (by decide +kernel) {} 1 "p" (by decide) spelledAttributes (by decide +kernel) _ hmem rfl rfl []
    ['P'] "></P>".toList (by decide +kernel) (by decide +kernel) rfl (by decide +kernel)
    (fun _ hnone => nomatch hnone)
  obtain ⟨-, hfirst⟩ := hundone [] _ _ rfl
  obtain ⟨-, hsecond⟩ := hundone (spelledAttributes.take 1) _ [] rfl
  refine ⟨by decide +kernel, ?_, ?_, ?_, ?_, ?_, ?_⟩
  · exact hfirst 0 1 (by decide)
  · exact hfirst 1 2 (by decide)
  · exact hfirst 6 8 (by decide)
  · exact hfirst 10 16 (by decide)
  · exact hsecond 1 1 (by decide)
  · exact hsecond 8 7 (by decide)

end Provenance.Markup
