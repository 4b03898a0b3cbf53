import Provenance.Proofs.Trace.Chain

/-! # Walks over corrupt logs

A log of given records may refer to itself in any way. A walk over it ends all the same, after
no more steps than its fuel allows, and reports a cycle exactly if a step comes back: the same
record at another index is another step.
-/

namespace Provenance

/-- The record of an identifier, of several the last one. -/
def FixedLog.find (log : FixedLog) (id : RecordId) : Option Record :=
  log.records.reverse.find? (·.id = id)

theorem FixedLog.settled (records : List Record) :
    Settled (FixedLog.find ⟨records, []⟩) (⟨records, []⟩ : FixedLog) := by
  intro id now
  cases hfound : records.reverse.find? (·.id = id) with
  | none =>
      simp only [RecordLog.fetch, FixedLog.fetch, FixedLog.find, hfound, List.not_mem_nil, if_false]
  | some record =>
      simp only [RecordLog.fetch, FixedLog.fetch, FixedLog.find, hfound, List.not_mem_nil, if_false]

theorem FixedLog.mem_ids_of_find {records : List Record} {id : RecordId} {record : Record}
    (hfound : FixedLog.find ⟨records, []⟩ id = some record) : id ∈ records.map (·.id) := by
  have hmem : record ∈ records := List.mem_reverse.mp (List.mem_of_find?_eq_some hfound)
  have hnamed : record.id = id := by simpa using List.find?_some hfound
  exact List.mem_map.mpr ⟨record, hmem, hnamed⟩

/-- The steps that a walk has taken when it is over. -/
def stepsOf : Except WalkError Trace → List Step
  | .ok trace => trace.steps
  | .error cause => cause.steps

theorem Chain.Fate.length_stepsOf {chain : Chain} {n : Nat} {result : Except WalkError Trace}
    (hfate : chain.Fate n result) : (stepsOf result).length = n + 1 := by
  obtain ⟨step, hhere⟩ := hfate.exists_step
  have hsteps : stepsOf result = chain.upTo (n + 1) := by cases hfate <;> rfl
  rw [hsteps, Chain.upTo_succ hhere, List.length_append, Chain.length_upTo hhere]
  rfl

/-- Over any table of records and by any of the rules, a walk without a limit ends within
    `n * (k + 1) + 2` steps, and what it comes to is read off the chain of its steps. -/
theorem walk_over_table (records : List Record) (options : WalkOptions) (start : Step)
    (hprovided : options.rules.Provided) (hunlimited : options.limits.maxSteps = none) :
    let log : FixedLog := ⟨records, []⟩
    let chain : Chain := ⟨options.rules, log.find, start⟩
    let outcome := (walk options start log).1
    let bound := records.length * (start.charIndex + 1) + 2
    (stepsOf outcome).length ≤ bound ∧
    (∀ fuel ≥ bound, walkFrom options fuel [] start log = some (walk options start log)) ∧
    ((∃ step steps, outcome = .error (.cycle step steps)) ↔ ∃ n, chain.ReturnsAt n) ∧
    (∀ step steps, outcome = .error (.cycle step steps) ↔
      ∃ n, chain.FirstReturn n ∧ chain.step? n = some step ∧ steps = chain.upTo (n + 1)) ∧
    (∀ step steps, outcome = .error (.cycle step steps) →
      ∃ earlier, steps = earlier ++ [step] ∧ step ∈ earlier ∧ earlier.Nodup) ∧
    (∀ id steps, outcome = .error (.notFound id steps) ↔
      ∃ n step, chain.step? n = some step ∧ chain.find step.id = none ∧ id = step.id ∧
        steps = chain.upTo (n + 1)) ∧
    (∀ trace, outcome = .ok trace ↔
      ∃ n step reason, chain.step? n = some step ∧ chain.ending step = some reason ∧
        trace = ⟨chain.upTo (n + 1), reason⟩) ∧
    ((∃ step steps, outcome = .error (.cycle step steps)) ∨
      (∃ id steps, outcome = .error (.notFound id steps)) ∨ ∃ trace, outcome = .ok trace) := by
  intro log chain outcome bound
  have hcomplete : ∀ id record, chain.find id = some record → id ∈ records.map (·.id) :=
    fun _ _ => FixedLog.mem_ids_of_find
  -- what a walk with any sufficient fuel comes to
  have hrun : ∀ fuel ≥ bound, ∃ m result, walkFrom options fuel [] start log = some (result, log) ∧
      chain.Fate m result ∧ ∀ k < m, ¬ chain.ReturnsAt k := by
    intro fuel henough
    have hmore : records.length * (start.charIndex + 1) < fuel :=
      Nat.lt_of_lt_of_le (Nat.lt_add_of_pos_right Nat.two_pos) henough
    exact chain.walkFrom_start_fate (FixedLog.settled records) hprovided hcomplete rfl
      hunlimited hmore
  obtain ⟨m, result, hwalked, hfate, hfresh⟩ := hrun bound (Nat.le_refl bound)
  have hwalks : walk options start log = (result, log) := walk_eq_of_walkFrom hwalked
  have hshown : outcome = result := congrArg Prod.fst hwalks
  rw [hshown]
  refine ⟨?_, ?_, hfate.exists_cycle_iff hfresh, fun _ _ => hfate.eq_cycle_iff hfresh,
    fun _ _ => hfate.steps_of_cycle hfresh, fun _ _ => hfate.eq_notFound_iff hfresh,
    fun _ => hfate.eq_ok_iff hfresh, hfate.cases_of_result⟩
  · obtain ⟨last, hhere⟩ := hfate.exists_step
    have hfew := Chain.le_of_not_returnsAt hprovided hcomplete hhere hfresh
    rw [List.length_map] at hfew
    change m ≤ records.length * (start.charIndex + 1) at hfew
    rw [hfate.length_stepsOf]
    omega
  · intro fuel henough
    obtain ⟨m', result', hwalked', hfate', hfresh'⟩ := hrun fuel henough
    rw [hwalked', hwalks, hfate'.unique hfresh' hfate hfresh]

/-- Two records that claim to have been made from each other. -/
def entangled : List Record :=
  [{ id := ⟨1⟩, kind := .binaryExpression, staticArgs := { operator := some "+" }
     args := (Operands.empty.insert "left" ⟨.str "ab", some ⟨2⟩⟩).insert "right"
       ⟨.str "cd", some ⟨2⟩⟩
     result := .str "abcd" },
   { id := ⟨2⟩, kind := .identifier
     args := Operands.empty.insert "value" ⟨.str "abcd", some ⟨1⟩⟩
     result := .str "abcd" }]

/-- The walk passes both records at falling indices before it comes back to a step. -/
theorem walk_over_entangled :
    ({} : WalkOptions).rules.Provided ∧ ({} : WalkOptions).limits.maxSteps = none ∧
    (walk {} ⟨⟨1⟩, 5⟩ (⟨entangled, []⟩ : FixedLog)).1 = .error (.cycle ⟨⟨2⟩, 1⟩
      [⟨⟨1⟩, 5⟩, ⟨⟨2⟩, 3⟩, ⟨⟨1⟩, 3⟩, ⟨⟨2⟩, 1⟩, ⟨⟨1⟩, 1⟩, ⟨⟨2⟩, 1⟩]) := by
  refine ⟨RuleTable.standard_provided, rfl, ?_⟩
  obtain ⟨-, -, -, hcycle, -⟩ :=
    walk_over_table entangled {} ⟨⟨1⟩, 5⟩ RuleTable.standard_provided rfl
  exact (hcycle _ _).mpr ⟨5, by decide, rfl, rfl⟩

end Provenance
