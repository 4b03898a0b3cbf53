import Provenance.Trace.Rule

/-! # Where rules lead

A provided rule that leads on leads into an operand of the record, to a place no further on
than the place it was asked about. Which operand that is, and how far the place is moved
back, is said once for each way in which rules descend.
-/

namespace Provenance

/-- The operands of all three groups. -/
def Operation.operands (op : Operation ρ) : List (Operand ρ) :=
  (op.args.entries ++ op.extraArgs.entries ++ op.runtimeArgs.entries).map (·.2)

theorem Operands.exists_mem_of_get? {operands : Operands ρ} {name : String} {operand : Operand ρ}
    (h : operands.get? name = some operand) : ∃ entry ∈ operands.entries, entry.2 = operand := by
  obtain ⟨entry, hfound, hshown⟩ := Option.map_eq_some_iff.mp h
  exact ⟨entry, List.mem_of_find?_eq_some hfound, hshown⟩

namespace Operation

variable {op : Operation ρ} {name : String} {operand : Operand ρ}

theorem mem_operands_of_arg (h : op.args.get? name = some operand) : operand ∈ op.operands := by
  obtain ⟨entry, hmem, rfl⟩ := Operands.exists_mem_of_get? h
  exact List.mem_map_of_mem (List.mem_append_left _ (List.mem_append_left _ hmem))

theorem mem_operands_of_extraArg (h : op.extraArgs.get? name = some operand) :
    operand ∈ op.operands := by
  obtain ⟨entry, hmem, rfl⟩ := Operands.exists_mem_of_get? h
  exact List.mem_map_of_mem (List.mem_append_left _ (List.mem_append_right _ hmem))

theorem mem_operands_of_runtimeArg (h : op.runtimeArgs.get? name = some operand) :
    operand ∈ op.operands := by
  obtain ⟨entry, hmem, rfl⟩ := Operands.exists_mem_of_get? h
  exact List.mem_map_of_mem (List.mem_append_right _ hmem)

end Operation

namespace Outcome

variable {record : Record} {operands : Operands RecordId} {operand left right : Operand RecordId}
  {name leftName rightName : String} {index : Nat} {step : Step}

theorem descend_eq_next :
    descend name operand index = .next step ↔
      operand.tracking = some step.id ∧ step.charIndex = index := by
  obtain ⟨id, place⟩ := step
  cases h : operand.tracking with
  | none => simp [descend, h]
  | some tracked => simp [descend, h, eq_comm]

theorem via_eq_next (h : via operands name index = .next step) :
    ∃ operand, operands.get? name = some operand ∧
      operand.tracking = some step.id ∧ step.charIndex = index := by
  unfold via at h
  split at h
  · rename_i operand hfound
    exact ⟨operand, hfound, descend_eq_next.mp h⟩
  · cases h

/-- A sum leads into the left text, or behind it into the right one. -/
theorem concat_eq_next (h : concat leftName left rightName right index = .next step) :
    ∃ l r, left.text? = some l ∧ right.text? = some r ∧
      (index < l.length ∧ left.tracking = some step.id ∧ step.charIndex = index ∨
        l.length ≤ index ∧ right.tracking = some step.id ∧
          step.charIndex = index - l.length) := by
  unfold concat at h
  split at h
  · rename_i l r hleftText hrightText
    refine ⟨l, r, hleftText, hrightText, ?_⟩
    split at h
    · rename_i hbefore
      exact .inl ⟨hbefore, descend_eq_next.mp h⟩
    · rename_i hbehind
      exact .inr ⟨by omega, descend_eq_next.mp h⟩
  · cases h

end Outcome

/-- A rule that goes no further for want of an operand, or of what it knows. -/
def Terminal.Broken : Terminal → Prop
  | untracked _ | unsupported _ => True
  | literal | synthesized => False

namespace Outcome

variable {operands : Operands RecordId} {operand left right : Operand RecordId}
  {name leftName rightName : String} {index : Nat} {reason : Terminal}

theorem descend_eq_terminal (h : descend name operand index = .terminal reason) :
    reason.Broken := by
  unfold descend at h
  split at h
  · cases h
  · cases h
    trivial

theorem via_eq_terminal (h : via operands name index = .terminal reason) : reason.Broken := by
  unfold via at h
  split at h
  · exact descend_eq_terminal h
  · cases h
    trivial

theorem concat_eq_terminal (h : concat leftName left rightName right index = .terminal reason) :
    reason.Broken := by
  unfold concat at h
  split at h
  · split at h <;> exact descend_eq_terminal h
  · cases h
    trivial

end Outcome

namespace Rule

open Operation

variable {record : Record} {index : Nat} {step : Step}

theorem binaryExpression_eq_next (h : binaryExpression record index = .next step) :
    record.operator = some "+" ∧ ∃ left right,
      record.args.get? "left" = some left ∧ record.args.get? "right" = some right ∧
        Outcome.concat "left" left "right" right index = .next step := by
  unfold binaryExpression at h
  split at h
  · rename_i hplus
    split at h
    · rename_i left right hleft hright
      exact ⟨hplus, left, right, hleft, hright, h⟩
    · cases h
  · cases h

/-- An assignment leads into what was assigned in the end, as far as that is recorded. -/
theorem assignmentExpression_eq_next (h : assignmentExpression record index = .next step) :
    record.operator = some "=" ∧ Outcome.via record.args "argument" index = .next step ∨
    record.operator = some "+=" ∧
      ((∃ assigned, record.runtimeArgs.get? "assignment" = some assigned ∧
          assigned.tracking = some step.id ∧ step.charIndex = index) ∨
        record.runtimeArgs.get? "assignment" = none ∧ ∃ current argument,
          record.args.get? "currentValue" = some current ∧
          record.args.get? "argument" = some argument ∧
          Outcome.concat "currentValue" current "argument" argument index = .next step) := by
  unfold assignmentExpression at h
  split at h
  · rename_i hplain
    exact .inl ⟨hplain, h⟩
  · split at h
    · rename_i happending
      refine .inr ⟨happending, ?_⟩
      split at h
      · rename_i assigned hfound
        exact .inl ⟨assigned, hfound, Outcome.descend_eq_next.mp h⟩
      · rename_i habsent
        split at h
        · rename_i current argument hcurrentValue hargument
          exact .inr ⟨habsent, current, argument, hcurrentValue, hargument, h⟩
        · cases h
    · cases h

/-- A declaration leads into the name, or behind the colon and the blank into the value. -/
theorem styleAssignment_eq_next (h : styleAssignment record index = .next step) :
    ∃ name value text, record.args.get? "styleName" = some name ∧
      record.args.get? "styleValue" = some value ∧ name.text? = some text ∧
      (index < text.length ∧ name.tracking = some step.id ∧ step.charIndex = index ∨
        text.length + 2 ≤ index ∧ value.tracking = some step.id ∧
          step.charIndex = index - text.length - 2) := by
  unfold styleAssignment at h
  split at h
  · rename_i name value hstyle hstyleValue
    split at h
    · cases h
    · rename_i text htext
      refine ⟨name, value, text, hstyle, hstyleValue, htext, ?_⟩
      split at h
      · rename_i hbefore
        exact .inl ⟨hbefore, Outcome.descend_eq_next.mp h⟩
      · split at h
        · cases h
        · rename_i hbehind
          exact .inr ⟨by omega, Outcome.descend_eq_next.mp h⟩
  · cases h

/-- A provided rule leads only into operands of the record, and never to a greater index. -/
theorem eq_next_of_provided {rule : Rule} (hprovided : rule ∈ Rule.provided)
    (h : rule record index = .next step) :
    ∃ operand ∈ record.operands, operand.tracking = some step.id ∧ step.charIndex ≤ index := by
  simp only [Rule.provided, List.mem_cons, List.not_mem_nil, or_false] at hprovided
  obtain rfl | rfl | rfl | rfl | rfl | rfl := hprovided
  case inl => cases h
  case inr.inl =>
    obtain ⟨operand, hfound, htracked, hplace⟩ := Outcome.via_eq_next h
    exact ⟨operand, mem_operands_of_arg hfound, htracked, Nat.le_of_eq hplace⟩
  case inr.inr.inl =>
    obtain ⟨operand, hfound, htracked, hplace⟩ := Outcome.via_eq_next h
    exact ⟨operand, mem_operands_of_extraArg hfound, htracked, Nat.le_of_eq hplace⟩
  case inr.inr.inr.inl =>
    obtain ⟨-, left, right, hleft, hright, hsum⟩ := binaryExpression_eq_next h
    obtain ⟨l, r, -, -, ⟨-, htracked, hplace⟩ | ⟨-, htracked, hplace⟩⟩ :=
      Outcome.concat_eq_next hsum
    · exact ⟨left, mem_operands_of_arg hleft, htracked, Nat.le_of_eq hplace⟩
    · exact ⟨right, mem_operands_of_arg hright, htracked, by omega⟩
  case inr.inr.inr.inr.inl =>
    obtain ⟨-, hplain⟩ | ⟨-, ⟨assigned, hfound, htracked, hplace⟩ |
        ⟨-, current, argument, hcurrentValue, hargument, hsum⟩⟩ := assignmentExpression_eq_next h
    · obtain ⟨operand, hfound, htracked, hplace⟩ := Outcome.via_eq_next hplain
      exact ⟨operand, mem_operands_of_arg hfound, htracked, Nat.le_of_eq hplace⟩
    · exact ⟨assigned, mem_operands_of_runtimeArg hfound, htracked, Nat.le_of_eq hplace⟩
    · obtain ⟨l, r, -, -, ⟨-, htracked, hplace⟩ | ⟨-, htracked, hplace⟩⟩ :=
        Outcome.concat_eq_next hsum
      · exact ⟨current, mem_operands_of_arg hcurrentValue, htracked, Nat.le_of_eq hplace⟩
      · exact ⟨argument, mem_operands_of_arg hargument, htracked, by omega⟩
  case inr.inr.inr.inr.inr =>
    obtain ⟨name, value, text, hstyle, hstyleValue, -,
      ⟨-, htracked, hplace⟩ | ⟨-, htracked, hplace⟩⟩ :=
      styleAssignment_eq_next h
    · exact ⟨name, mem_operands_of_arg hstyle, htracked, Nat.le_of_eq hplace⟩
    · exact ⟨value, mem_operands_of_arg hstyleValue, htracked, by omega⟩

theorem binaryExpression_eq_terminal {reason : Terminal}
    (h : binaryExpression record index = .terminal reason) : reason.Broken := by
  unfold binaryExpression at h
  split at h
  · split at h
    · exact Outcome.concat_eq_terminal h
    · cases h
      trivial
  · cases h
    trivial

theorem assignmentExpression_eq_terminal {reason : Terminal}
    (h : assignmentExpression record index = .terminal reason) : reason.Broken := by
  unfold assignmentExpression at h
  split at h
  · exact Outcome.via_eq_terminal h
  · split at h
    · split at h
      · exact Outcome.descend_eq_terminal h
      · split at h
        · exact Outcome.concat_eq_terminal h
        · cases h
          trivial
    · cases h
      trivial

/-- Only the colon and the blank between the name and the value are of the declaration's own. -/
theorem styleAssignment_eq_terminal {reason : Terminal}
    (h : styleAssignment record index = .terminal reason) :
    reason.Broken ∨ reason = .synthesized ∧ ∃ name value text,
      record.args.get? "styleName" = some name ∧ record.args.get? "styleValue" = some value ∧
        name.text? = some text ∧ text.length ≤ index ∧ index < text.length + 2 := by
  unfold styleAssignment at h
  split at h
  · rename_i name value hstyle hstyleValue
    split at h
    · cases h
      exact .inl trivial
    · rename_i text htext
      split at h
      · exact .inl (Outcome.descend_eq_terminal h)
      · split at h
        · rename_i hbehind hinside
          cases h
          exact .inr ⟨rfl, name, value, text, hstyle, hstyleValue, htext, by omega, hinside⟩
        · exact .inl (Outcome.descend_eq_terminal h)
  · cases h
    exact .inl trivial

end Rule

namespace RuleTable

variable {table : RuleTable} {kind : Kind} {rule : Rule}

/-- All rules of the table are among those that there are to begin with. -/
def Provided (table : RuleTable) : Prop := ∀ entry ∈ table.entries, entry.2 ∈ Rule.provided

theorem standard_provided : standard.Provided := by simp [Provided, standard, Rule.provided]

/-- A table stays one of provided rules when one of these is registered. -/
theorem Provided.register (hprovided : table.Provided) (kind : Kind) (hone : rule ∈ Rule.provided) :
    (table.register kind rule).Provided := by
  intro entry hlisted
  obtain rfl | hkept := List.mem_cons.mp hlisted
  · exact hone
  · exact hprovided entry (List.mem_filter.mp hkept).1

theorem Provided.get? (hprovided : table.Provided) (hentered : table.get? kind = some rule) :
    rule ∈ Rule.provided := by
  obtain ⟨before, after, hlisted, -⟩ := List.lookup_eq_some_iff.mp hentered
  exact hprovided (kind, rule) (hlisted ▸ List.mem_append_right _ List.mem_cons_self)

theorem apply_eq_next {record : Record} {index : Nat} {step : Step} (hprovided : table.Provided)
    (h : table.apply record index = some (.next step)) :
    ∃ operand ∈ record.operands, operand.tracking = some step.id ∧ step.charIndex ≤ index := by
  obtain ⟨rule, hentered, happlied⟩ := Option.map_eq_some_iff.mp h
  exact Rule.eq_next_of_provided (hprovided.get? hentered) happlied

end RuleTable

end Provenance
