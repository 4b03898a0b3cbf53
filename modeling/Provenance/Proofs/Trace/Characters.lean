import Provenance.Proofs.Log.Memory
import Provenance.Record.Draft

/-! # Characters along a trace

If the results of a log are what its operations make of their operands, and the operands are
what the tracked records resulted in, then a rule that leads on leads to the same character in
an older value. So all steps of a trace name one character.
-/

namespace Provenance

open Rule Operation

/-- The text is the first operand followed by the second one, if both are texts. -/
def Record.Joins (record : Record) (left right text : String) : Prop :=
  ∀ a ∈ record.args.get? left, ∀ b ∈ record.args.get? right, ∀ l ∈ a.text?, ∀ r ∈ b.text?,
    text = l ++ r

/-- The text is what was assigned in the end, or else the argument added to the current value. -/
def Record.Appends (record : Record) (text : String) : Prop :=
  match record.runtimeArgs.get? "assignment" with
  | some assigned => assigned.text? = some text
  | none => record.Joins "currentValue" "argument" text

/-- The text is what an operation of the record's kind makes of its operands. -/
def Record.Computes (record : Record) (text : String) : Prop :=
  match record.kind with
  | .identifier => ∀ value ∈ record.args.get? "value", value.text? = some text
  | .memberExpression => ∀ value ∈ record.extraArgs.get? "propertyValue", value.text? = some text
  | .binaryExpression => record.operator = some "+" → record.Joins "left" "right" text
  | .assignmentExpression =>
    (record.operator = some "=" → ∀ argument ∈ record.args.get? "argument",
      argument.text? = some text) ∧
    (record.operator = some "+=" → record.Appends text)
  | .styleAssignment => ∀ name ∈ record.args.get? "styleName",
    ∀ value ∈ record.args.get? "styleValue", ∃ n ∈ name.text?, ∃ v ∈ value.text?,
      text = n ++ ": " ++ v
  | _ => True

instance (record : Record) (left right text : String) :
    Decidable (record.Joins left right text) :=
  inferInstanceAs (Decidable (∀ a ∈ record.args.get? left, ∀ b ∈ record.args.get? right,
    ∀ l ∈ a.text?, ∀ r ∈ b.text?, text = l ++ r))

instance (record : Record) (text : String) : Decidable (record.Appends text) := by
  unfold Record.Appends
  split <;> infer_instance

instance (record : Record) (text : String) : Decidable (record.Computes text) := by
  unfold Record.Computes
  split <;> infer_instance

/-- Tracked operands are what the tracked records resulted in, and results that are texts are
    what the operations make of their operands. -/
structure MemoryLog.Consistent (log : MemoryLog) : Prop where
  tracked : ∀ record ∈ log.records, ∀ operand ∈ record.operands, ∀ source ∈ log.records,
    operand.tracking = some source.id → operand.value = source.result
  computed : ∀ record ∈ log.records, ∀ text, record.result = .str text → record.Computes text

variable {record : Record} {index : Nat} {step : Step} {text : String} {c : Char}

theorem Json.eq_str_of_str? {value : Json} (h : value.str? = some text) : value = .str text := by
  unfold str? at h
  split at h
  · rw [Option.some.inj h]
  · cases h

/-- A log all of whose tracked values are texts is consistent if those texts are. -/
theorem MemoryLog.Consistent.of_texts {log : MemoryLog}
    (htracked : ∀ record ∈ log.records, ∀ operand ∈ record.operands, ∀ source ∈ log.records,
      operand.tracking = some source.id → ∃ text ∈ operand.text?, source.result.str? = some text)
    (hcomputed : ∀ record ∈ log.records, ∀ text ∈ record.result.str?, record.Computes text) :
    log.Consistent where
  tracked := by
    intro record hmem operand hhas source hmem' hshown
    obtain ⟨text, hisText, hresult⟩ := htracked record hmem operand hhas source hmem' hshown
    rw [Json.eq_str_of_str? hisText, Json.eq_str_of_str? hresult]
  computed := fun record hmem text hresult =>
    hcomputed record hmem text (by rw [hresult]; rfl)

/-! ## One step -/

/-- The step leads into an operand that has the character at the place it leads to. -/
def Record.Carries (record : Record) (step : Step) (c : Char) : Prop :=
  ∃ operand ∈ record.operands, ∃ value, operand.tracking = some step.id ∧
    operand.text? = some value ∧ value.toList[step.charIndex]? = some c

theorem Record.Joins.carries {leftName rightName : String} {left right : Operand RecordId}
    (hjoins : record.Joins leftName rightName text) (hleft : record.args.get? leftName = some left)
    (hright : record.args.get? rightName = some right) (hchar : text.toList[index]? = some c)
    (hleads : Outcome.concat leftName left rightName right index = .next step) :
    record.Carries step c := by
  obtain ⟨l, r, hisLeft, hisRight, hparts⟩ := Outcome.concat_eq_next hleads
  rw [hjoins left hleft right hright l hisLeft r hisRight, String.toList_append] at hchar
  obtain ⟨hbefore, htracked, hplace⟩ | ⟨hbehind, htracked, hplace⟩ := hparts
  · refine ⟨left, mem_operands_of_arg hleft, l, htracked, hisLeft, ?_⟩
    rwa [List.getElem?_append_left (by rwa [String.length_toList]), ← hplace] at hchar
  · refine ⟨right, mem_operands_of_arg hright, r, htracked, hisRight, ?_⟩
    rwa [List.getElem?_append_right (by rwa [String.length_toList]), String.length_toList,
      ← hplace] at hchar

/-- A rule that leads on leads to the same character. -/
theorem RuleTable.standard_carries (hcomputes : record.Computes text)
    (hchar : text.toList[index]? = some c)
    (hleads : RuleTable.standard.apply record index = some (.next step)) :
    record.Carries step c := by
  obtain ⟨rule, hentered, happlied⟩ := Option.map_eq_some_iff.mp hleads
  unfold Record.Computes at hcomputes
  cases hkind : record.kind with
  | stringLiteral | numericLiteral | templateLiteral =>
      rw [hkind] at hentered
      obtain rfl := Option.some.inj hentered
      cases happlied
  | callExpression | other =>
      rw [hkind] at hentered
      cases hentered
  | identifier =>
      rw [hkind] at hentered hcomputes
      obtain rfl := Option.some.inj hentered
      obtain ⟨operand, hfound, htracked, hplace⟩ := Outcome.via_eq_next happlied
      exact ⟨operand, mem_operands_of_arg hfound, text, htracked, hcomputes operand hfound,
        hplace ▸ hchar⟩
  | memberExpression =>
      rw [hkind] at hentered hcomputes
      obtain rfl := Option.some.inj hentered
      obtain ⟨operand, hfound, htracked, hplace⟩ := Outcome.via_eq_next happlied
      exact ⟨operand, mem_operands_of_extraArg hfound, text, htracked, hcomputes operand hfound,
        hplace ▸ hchar⟩
  | binaryExpression =>
      rw [hkind] at hentered hcomputes
      obtain rfl := Option.some.inj hentered
      obtain ⟨hplus, left, right, hleft, hright, hsum⟩ := binaryExpression_eq_next happlied
      exact (hcomputes hplus).carries hleft hright hchar hsum
  | assignmentExpression =>
      rw [hkind] at hentered hcomputes
      obtain rfl := Option.some.inj hentered
      obtain ⟨hplain, hleads⟩ | ⟨happending, ⟨assigned, hfound, htracked, hplace⟩ |
          ⟨habsent, current, argument, hcurrentValue, hargument, hsum⟩⟩ :=
            assignmentExpression_eq_next happlied
      · obtain ⟨operand, hfound, htracked, hplace⟩ := Outcome.via_eq_next hleads
        exact ⟨operand, mem_operands_of_arg hfound, text, htracked,
          hcomputes.1 hplain operand hfound, hplace ▸ hchar⟩
      · have hwhole := hcomputes.2 happending
        rw [Record.Appends, hfound] at hwhole
        exact ⟨assigned, mem_operands_of_runtimeArg hfound, text, htracked, hwhole, hplace ▸ hchar⟩
      · have hjoins := hcomputes.2 happending
        rw [Record.Appends, habsent] at hjoins
        exact Record.Joins.carries hjoins hcurrentValue hargument hchar hsum
  | styleAssignment =>
      rw [hkind] at hentered hcomputes
      obtain rfl := Option.some.inj hentered
      obtain ⟨name, value, n, hstyle, hstyleValue, hisName, hparts⟩ :=
        styleAssignment_eq_next happlied
      obtain ⟨n', hisName', v, hisValue, rfl⟩ := hcomputes name hstyle value hstyleValue
      obtain rfl := Option.some.inj (hisName.symm.trans hisName')
      simp only [String.toList_append] at hchar
      have hlength : (n.toList ++ ": ".toList).length = n.length + 2 := by
        simp [String.length_toList]
      obtain ⟨hbefore, htracked, hplace⟩ | ⟨hbehind, htracked, hplace⟩ := hparts
      · refine ⟨name, mem_operands_of_arg hstyle, n, htracked, hisName, ?_⟩
        rwa [List.append_assoc, List.getElem?_append_left (by rwa [String.length_toList]),
          ← hplace] at hchar
      · refine ⟨value, mem_operands_of_arg hstyleValue, v, htracked, hisValue, ?_⟩
        rwa [List.getElem?_append_right (by rwa [hlength]), hlength, ← Nat.sub_sub,
          ← hplace] at hchar

/-- A standard rule that goes no further does so for want of something, or because the record is a
    literal, or between the name and the value of a style. -/
theorem RuleTable.standard_eq_terminal {reason : Terminal}
    (hends : RuleTable.standard.apply record index = some (.terminal reason)) :
    reason.Broken ∨
      reason = .literal ∧ record.kind ∈ [.stringLiteral, .numericLiteral, .templateLiteral] ∨
      record.kind = .styleAssignment ∧ styleAssignment record index = .terminal reason := by
  obtain ⟨rule, hentered, happlied⟩ := Option.map_eq_some_iff.mp hends
  cases hkind : record.kind with
  | stringLiteral | numericLiteral | templateLiteral =>
      rw [hkind] at hentered
      obtain rfl := Option.some.inj hentered
      cases happlied
      exact .inr (.inl ⟨rfl, by simp⟩)
  | callExpression | other =>
      rw [hkind] at hentered
      cases hentered
  | identifier | memberExpression =>
      rw [hkind] at hentered
      obtain rfl := Option.some.inj hentered
      exact .inl (Outcome.via_eq_terminal happlied)
  | binaryExpression =>
      rw [hkind] at hentered
      obtain rfl := Option.some.inj hentered
      exact .inl (binaryExpression_eq_terminal happlied)
  | assignmentExpression =>
      rw [hkind] at hentered
      obtain rfl := Option.some.inj hentered
      exact .inl (assignmentExpression_eq_terminal happlied)
  | styleAssignment =>
      rw [hkind] at hentered
      obtain rfl := Option.some.inj hentered
      exact .inr (.inr ⟨rfl, happlied⟩)

theorem RuleTable.standard_literal
    (hends : RuleTable.standard.apply record index = some (.terminal .literal)) :
    record.kind ∈ [.stringLiteral, .numericLiteral, .templateLiteral] := by
  obtain hbroken | ⟨-, hkind⟩ | ⟨-, happlied⟩ := standard_eq_terminal hends
  · exact hbroken.elim
  · exact hkind
  · obtain hbroken | ⟨hsynthesized, -⟩ := styleAssignment_eq_terminal happlied
    · exact hbroken.elim
    · cases hsynthesized

/-- The characters that no operand has are the colon and the blank of a declaration. -/
theorem RuleTable.standard_synthesized (hcomputes : record.Computes text)
    (hchar : text.toList[index]? = some c)
    (hends : RuleTable.standard.apply record index = some (.terminal .synthesized)) :
    record.kind = .styleAssignment ∧ (c = ':' ∨ c = ' ') := by
  obtain hbroken | ⟨hliteral, -⟩ | ⟨hkind, happlied⟩ := standard_eq_terminal hends
  · exact hbroken.elim
  · cases hliteral
  · obtain hbroken | ⟨-, name, value, n, hstyle, hstyleValue, hisName, hbehind, hinside⟩ :=
      styleAssignment_eq_terminal happlied
    · exact hbroken.elim
    unfold Record.Computes at hcomputes
    rw [hkind] at hcomputes
    obtain ⟨n', hisName', v, -, rfl⟩ := hcomputes name hstyle value hstyleValue
    obtain rfl := Option.some.inj (hisName.symm.trans hisName')
    simp only [String.toList_append, List.append_assoc] at hchar
    rw [List.getElem?_append_right (by rwa [String.length_toList]), String.length_toList] at hchar
    change (':' :: ' ' :: v.toList)[index - n.length]? = some c at hchar
    refine ⟨hkind, ?_⟩
    obtain hfirst | hsecond : index - n.length = 0 ∨ index - n.length = 1 := by omega
    · rw [hfirst] at hchar
      exact .inl (Option.some.inj hchar).symm
    · rw [hsecond] at hchar
      exact .inr (Option.some.inj hchar).symm

/-! ## All steps -/

namespace MemoryLog

variable {log : MemoryLog}

/-- The record of the step resulted in a text that has the character at the step's index. -/
def Shows (log : MemoryLog) (step : Step) (c : Char) : Prop :=
  ∃ record value, log.find step.id = some record ∧ record.result = .str value ∧
    value.toList[step.charIndex]? = some c

theorem Shows.next (hconsistent : log.Consistent) {next : Step} {source : Record}
    (hhere : log.Shows step c) (hfound : log.find step.id = some record)
    (hleads : RuleTable.standard.apply record step.charIndex = some (.next next))
    (hthere : log.find next.id = some source) : log.Shows next c := by
  obtain ⟨record', value, hfound', hresult, hchar⟩ := hhere
  obtain rfl := Option.some.inj (hfound.symm.trans hfound')
  obtain ⟨hmem, -⟩ := mem_of_find hfound
  obtain ⟨holder, hnamed⟩ := mem_of_find hthere
  obtain ⟨operand, hhas, text, htracked, hisText, hchar'⟩ :=
    RuleTable.standard_carries (hconsistent.computed record hmem value hresult) hchar hleads
  have hsame := hconsistent.tracked record hmem operand hhas source holder (hnamed ▸ htracked)
  exact ⟨source, text, hthere, by rw [← hsame, Json.eq_str_of_str? hisText], hchar'⟩

/-- Every step of a chain whose record is there shows the character of the start. -/
theorem Shows.step? (hconsistent : log.Consistent) {start : Step} (hfirst : log.Shows start c)
    {n : Nat} (hhere : (Chain.mk .standard log.find start).step? n = some step)
    (hfound : log.find step.id = some record) : log.Shows step c := by
  induction n generalizing step record with
  | zero =>
      cases hhere
      exact hfirst
  | succ n ih =>
      obtain ⟨earlier, hbefore, hleads⟩ := Option.bind_eq_some_iff.mp hhere
      obtain ⟨source, hthere, happlied⟩ := Chain.after_eq_some hleads
      exact (ih hbefore hthere).next hconsistent hthere happlied hfound

/-- All steps of a chain up to one that has a record show the character of the start. -/
theorem Shows.of_mem_upTo (hconsistent : log.Consistent) {start last : Step}
    (hfirst : log.Shows start c) {n : Nat}
    (hhere : (Chain.mk .standard log.find start).step? n = some last)
    (hfound : log.find last.id = some record)
    (hmem : step ∈ (Chain.mk .standard log.find start).upTo (n + 1)) : log.Shows step c := by
  obtain ⟨m, hless, hthere⟩ := Chain.mem_upTo.mp hmem
  obtain hbefore | rfl := Nat.lt_succ_iff_lt_or_eq.mp hless
  · obtain ⟨source, hfound⟩ := Chain.exists_find_of_lt hhere hbefore hthere
    exact hfirst.step? hconsistent hthere hfound
  · obtain rfl := Option.some.inj (hhere.symm.trans hthere)
    exact hfirst.step? hconsistent hthere hfound

theorem Shows.exists_fetch (hshows : log.Shows step c) :
    ∃ record value, log.fetch step.id = .found record ∧ record.result = .str value ∧
      step.charIndex < value.length ∧ value.toList[step.charIndex]? = some c := by
  obtain ⟨source, value, hfound, hresult, hchar⟩ := hshows
  refine ⟨source, value, fetch_eq_found hfound, hresult, ?_, hchar⟩
  obtain ⟨hless, -⟩ := List.getElem?_eq_some_iff.mp hchar
  rwa [String.length_toList] at hless

/-- Over a consistent log, a trace names one character all the way; it ends at an origin only
    where a literal has the character, and at a synthesized one only between the name and the
    value of a style. -/
theorem walk_shows (hreached : log.Reached) (hconsistent : log.Consistent)
    {options : WalkOptions} (hstandard : options.rules = .standard)
    (hunlimited : options.limits.maxSteps = none) {id : RecordId} {start : Record}
    (hfetched : log.fetch id = .found start) (hresult : start.result = .str text)
    (hinside : index < text.length) {trace : Trace}
    (hwalked : (walk options ⟨id, index⟩ log).1 = .ok trace) :
    trace.steps.head? = some ⟨id, index⟩ ∧
    (∀ step ∈ trace.steps, ∃ record value, log.fetch step.id = .found record ∧
      record.result = .str value ∧ step.charIndex < value.length ∧
        value.toList[step.charIndex]? = text.toList[index]?) ∧
    (trace.ending = .origin → ∃ last ∈ trace.last?, ∃ record, log.fetch last.id = .found record ∧
      record.kind ∈ [.stringLiteral, .numericLiteral, .templateLiteral]) ∧
    (trace.ending = .synthesized → ∃ last ∈ trace.last?, ∃ record,
      log.fetch last.id = .found record ∧ record.kind = .styleAssignment ∧
        (text.toList[index]? = some ':' ∨ text.toList[index]? = some ' ')) := by
  obtain ⟨c, hchar⟩ : ∃ c, text.toList[index]? = some c :=
    ⟨_, List.getElem?_eq_getElem (by rwa [String.length_toList])⟩
  have hfirst : log.Shows ⟨id, index⟩ c := ⟨start, text, find_of_fetch hfetched, hresult, hchar⟩
  obtain ⟨n, outcome, hwalks, hfate, hfresh⟩ :=
    hreached.walk_fate (hstandard ▸ RuleTable.standard_provided) hunlimited ⟨id, index⟩
  rw [hwalks] at hwalked
  rw [hstandard] at hfate hfresh
  obtain ⟨k, last, reason, hhere, hends, rfl⟩ := (hfate.eq_ok_iff hfresh).mp hwalked
  rw [hchar]
  have hlastOf : (Chain.upTo ⟨.standard, log.find, ⟨id, index⟩⟩ (k + 1)).getLast? = some last := by
    rw [Chain.upTo_succ hhere, List.getLast?_concat]
  obtain ⟨record, hfound, hpast⟩ := Chain.ending_eq_some hends
  have hshown : ∀ step, step ∈ Chain.upTo ⟨.standard, log.find, ⟨id, index⟩⟩ (k + 1) →
      log.Shows step c := fun step => hfirst.of_mem_upTo hconsistent hhere hfound
  refine ⟨Chain.head?_upTo_succ, fun step hmem => (hshown step hmem).exists_fetch, ?_, ?_⟩
  · rintro rfl
    obtain ⟨-, hunsupported⟩ | ⟨terminal, happlied, hending⟩ := hpast
    · cases hunsupported
    · cases terminal with
      | literal =>
          exact ⟨last, hlastOf, record, fetch_eq_found hfound, RuleTable.standard_literal happlied⟩
      | _ => cases hending
  · rintro rfl
    obtain ⟨-, hunsupported⟩ | ⟨terminal, happlied, hending⟩ := hpast
    · cases hunsupported
    · cases terminal with
      | synthesized =>
          obtain ⟨source, value, hfound', hresult, hchar'⟩ :=
            hshown last (List.mem_of_getLast? hlastOf)
          obtain rfl := Option.some.inj (hfound.symm.trans hfound')
          have hcomputes := hconsistent.computed record (mem_of_find hfound).1 value hresult
          obtain ⟨hkind, hcolon⟩ := RuleTable.standard_synthesized hcomputes hchar' happlied
          refine ⟨last, hlastOf, record, fetch_eq_found hfound, hkind, ?_⟩
          exact hcolon.imp (congrArg some) (congrArg some)
      | _ => cases hending

/-- A style whose value was put together from two texts. -/
def styled : List Draft :=
  [Draft.stringLiteral "color", Draft.stringLiteral "»r", Draft.stringLiteral "ed",
    Draft.concat ⟨.str "»r", some (.inBatch 1)⟩ ⟨.str "ed", some (.inBatch 2)⟩,
    { kind := .styleAssignment
      args := (Operands.empty.insert "styleName" ⟨.str "color", some (.inBatch 0)⟩).insert
        "styleValue" ⟨.str "»red", some (.inBatch 3)⟩
      result := .str "color: »red" }]

/-- The log of that style alone. -/
def styledLog : MemoryLog := (MemoryLog.append styled {}).2

theorem styledLog_consistent : styledLog.Consistent := .of_texts (by decide) (by decide)

/-- The last character of the style is led back through the sum to its literal. -/
theorem walk_shows_styled :
    styledLog.Reached ∧ styledLog.Consistent ∧
    (walk {} ⟨⟨5⟩, 10⟩ styledLog).1 = .ok ⟨[⟨⟨5⟩, 10⟩, ⟨⟨4⟩, 3⟩, ⟨⟨3⟩, 1⟩], .origin⟩ ∧
    ∀ step ∈ ([⟨⟨5⟩, 10⟩, ⟨⟨4⟩, 3⟩, ⟨⟨3⟩, 1⟩] : List Step), ∃ record value,
      styledLog.fetch step.id = .found record ∧ record.result = .str value ∧
        step.charIndex < value.length ∧
          value.toList[step.charIndex]? = "color: »red".toList[10]? := by
  have hreached : styledLog.Reached := .append .empty styled
  have hstandard : ({} : WalkOptions).rules = .standard := rfl
  have hunlimited : ({} : WalkOptions).limits.maxSteps = none := rfl
  obtain ⟨start, hfetched, hresult⟩ : ∃ start, styledLog.fetch ⟨5⟩ = .found start ∧
      start.result = .str "color: »red" := ⟨_, rfl, rfl⟩
  have hwalked : (walk {} ⟨⟨5⟩, 10⟩ styledLog).1 =
      .ok ⟨[⟨⟨5⟩, 10⟩, ⟨⟨4⟩, 3⟩, ⟨⟨3⟩, 1⟩], .origin⟩ := by decide
  obtain ⟨-, hshown, -⟩ := walk_shows hreached styledLog_consistent hstandard hunlimited hfetched
    hresult (by decide) hwalked
  exact ⟨hreached, styledLog_consistent, hwalked, hshown⟩

end MemoryLog

end Provenance
