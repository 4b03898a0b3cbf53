import Provenance.Proofs.Trace.Cycles

/-! # Walks with a limit

A limit on the number of steps only cuts a walk off. It is looked at before every step, after the
cycle check: so a walk that fits comes to what it comes to without a limit, a cycle that is seen
when the limit is just reached is still reported, and any other walk stops with as many steps as
are allowed. The induction is on the fuel of the walk without a limit.
-/

namespace Provenance

/-- The options with another limit, or without one. -/
def WalkOptions.withMaxSteps (options : WalkOptions) (maxSteps : Option Nat) : WalkOptions :=
  { options with limits := { options.limits with maxSteps } }

/-- The steps that a walk has taken, without the repetition that ends a cycle. -/
def distinctSteps : Except WalkError Trace → List Step
  | .error (.cycle _ steps) => steps.dropLast
  | result => stepsOf result

/-- What is left of a result if `m` steps are allowed. -/
def cutOff (m : Nat) (result : Except WalkError Trace) : Except WalkError Trace :=
  if (distinctSteps result).length ≤ m then result
  else .error (.tooLong m ((stepsOf result).take m))

/-! ## A single step -/

theorem distinctSteps_isFront (result : Except WalkError Trace) :
    distinctSteps result <+: stepsOf result := by
  unfold distinctSteps
  split
  · exact List.dropLast_prefix _
  · exact List.prefix_refl _

namespace WalkOptions

variable {options : WalkOptions} {steps : List Step} {current : Step} {fetched : Fetch}
  {result : Except WalkError Trace}

theorem decision_withMaxSteps (options : WalkOptions) (maxSteps : Option Nat) :
    (options.withMaxSteps maxSteps).decision = options.decision := rfl

theorem refusal_unlimited (hnew : current ∉ steps) :
    (options.withMaxSteps none).refusal steps current = none := by
  rw [refusal, if_neg hnew]
  rfl

theorem refusal_limited (hnew : current ∉ steps) (m : Nat) :
    (options.withMaxSteps (some m)).refusal steps current =
      if m ≤ steps.length then some (.tooLong m steps) else none := by
  rw [refusal, if_neg hnew]
  by_cases hfull : m ≤ steps.length <;>
    simp [withMaxSteps, WalkLimits.reached, Option.filter, hfull]

theorem refusal_of_mem (hagain : current ∈ steps) (maxSteps : Option Nat) :
    (options.withMaxSteps maxSteps).refusal steps current =
      some (.cycle current (steps ++ [current])) := if_pos hagain

/-- A walk that ends at a record, or for want of one, has taken the steps up to there, and does not
    report a cycle. -/
theorem steps_of_decision
    (hends : options.decision steps current (settle (.ok fetched)) = .inl result) :
    stepsOf result = steps ∧ ∀ step all, result ≠ .error (.cycle step all) := by
  cases fetched with
  | notFound =>
      cases hends
      exact ⟨rfl, nofun⟩
  | notYetAvailable =>
      simp only [settle, decision, Sum.inl.injEq] at hends
      split at hends <;> cases hends <;> exact ⟨rfl, nofun⟩
  | found record =>
      simp only [settle, decision] at hends
      split at hends <;> cases hends <;> exact ⟨rfl, nofun⟩

end WalkOptions

theorem distinctSteps_of_not_cycle {result : Except WalkError Trace}
    (hother : ∀ step all, result ≠ .error (.cycle step all)) :
    distinctSteps result = stepsOf result := by
  unfold distinctSteps
  split
  · exact absurd rfl (hother _ _)
  · rfl

theorem cutOff_of_not_cycle {result : Except WalkError Trace}
    (hother : ∀ step all, result ≠ .error (.cycle step all)) (m : Nat) :
    cutOff m result = if (stepsOf result).length ≤ m then result
      else .error (.tooLong m ((stepsOf result).take m)) := by
  rw [cutOff, distinctSteps_of_not_cycle hother]

theorem cutOff_of_cycle (m : Nat) (step : Step) (earlier : List Step) :
    cutOff m (.error (.cycle step (earlier ++ [step]))) =
      if earlier.length ≤ m then .error (.cycle step (earlier ++ [step]))
      else .error (.tooLong m ((earlier ++ [step]).take m)) := by
  simp only [cutOff, distinctSteps, List.dropLast_concat]
  rfl

/-! ## Whole walks -/

section Steady

variable {σ : Type} [RecordLog σ] {answers : RecordId → Fetch} {log later : σ}
  (hsteady : Steady answers log) {options : WalkOptions} {fuel : Nat} {steps : List Step}
  {current : Step} {result : Except WalkError Trace}

include hsteady

/-- The same for a walk without a limit that takes a new step: it ends with the answer, or goes on,
    and the log is as it was. -/
theorem walkFrom_unlimited (hnew : current ∉ steps)
    (hcomes : walkFrom (options.withMaxSteps none) (fuel + 1) steps current log =
      some (result, later)) :
    options.decision (steps ++ [current]) current (settle (.ok (answers current.id))) =
        .inl result ∧ later = log ∨
      ∃ next, options.decision (steps ++ [current]) current (settle (.ok (answers current.id))) =
        .inr next ∧
          walkFrom (options.withMaxSteps none) fuel (steps ++ [current]) next log =
            some (result, later) := by
  obtain ⟨error, hrefused, -, -⟩ | ⟨-, honward⟩ := walkFrom_eq_some hcomes
  · rw [WalkOptions.refusal_unlimited hnew] at hrefused
    cases hrefused
  · rwa [hsteady.poll, WalkOptions.decision_withMaxSteps] at honward

/-- The steps that were taken are the first of all the distinct steps, and so is a step that is
    new. -/
theorem walkFrom_isFront
    (hcomes : walkFrom (options.withMaxSteps none) fuel steps current log = some (result, later)) :
    steps <+: distinctSteps result ∧
      (current ∉ steps → steps ++ [current] <+: distinctSteps result) := by
  induction fuel generalizing steps current with
  | zero => cases hcomes
  | succ fuel ih =>
      by_cases hagain : current ∈ steps
      · rw [walkFrom_succ, WalkOptions.refusal_of_mem hagain] at hcomes
        cases hcomes
        exact ⟨by simp [distinctSteps], fun hnew => absurd hagain hnew⟩
      · have hmore : steps ++ [current] <+: distinctSteps result := by
          obtain ⟨hdecided, -⟩ | ⟨next, -, honward⟩ := walkFrom_unlimited hsteady hagain hcomes
          · obtain ⟨htaken, hother⟩ := WalkOptions.steps_of_decision hdecided
            have hall : steps ++ [current] <+: stepsOf result := htaken ▸ List.prefix_refl _
            rwa [distinctSteps_of_not_cycle hother]
          · exact (ih honward).1
        exact ⟨(List.prefix_append steps [current]).trans hmore, fun _ => hmore⟩

/-- Within the limit a walk comes to what is left of the result without one. -/
theorem walkFrom_limited {m : Nat} (hfew : steps.length ≤ m)
    (hcomes : walkFrom (options.withMaxSteps none) fuel steps current log = some (result, later)) :
    walkFrom (options.withMaxSteps (some m)) fuel steps current log =
      some (cutOff m result, later) := by
  induction fuel generalizing steps current with
  | zero => cases hcomes
  | succ fuel ih =>
      by_cases hagain : current ∈ steps
      · rw [walkFrom_succ, WalkOptions.refusal_of_mem hagain] at hcomes ⊢
        cases hcomes
        rw [cutOff_of_cycle, if_pos hfew]
      by_cases hfull : m ≤ steps.length
      · -- the limit is reached, and the unlimited walk has at least one step more
        obtain rfl : steps.length = m := Nat.le_antisymm hfew hfull
        have hmore := (walkFrom_isFront hsteady hcomes).2 hagain
        have hlong := hmore.length_le
        rw [List.length_append, List.length_singleton] at hlong
        have hfront := ((List.prefix_append steps [current]).trans hmore).trans
          (distinctSteps_isFront _)
        have hstill : later = log := walkFrom_keeps (P := (· = log))
          (fun id now _ hsame => by rw [hsame, hsteady]) hcomes rfl
        rw [walkFrom_succ, WalkOptions.refusal_limited hagain, if_pos hfull, cutOff,
          if_neg (by omega), ← List.prefix_iff_eq_take.mp hfront, hstill]
      · have hroom : (steps ++ [current]).length ≤ m := by
          rw [List.length_append, List.length_singleton]
          omega
        rw [walkFrom_succ, WalkOptions.refusal_limited hagain, if_neg hfull, hsteady.poll,
          WalkOptions.decision_withMaxSteps]
        obtain ⟨hdecided, rfl⟩ | ⟨next, hdecided, honward⟩ :=
          walkFrom_unlimited hsteady hagain hcomes
        · obtain ⟨htaken, hother⟩ := WalkOptions.steps_of_decision hdecided
          rw [hdecided, cutOff_of_not_cycle hother, htaken, if_pos hroom]
        · rw [hdecided]
          exact ih hroom honward

/-- A walk reports a cycle at a step that it has taken before, and has taken no other step twice. -/
theorem steps_of_walkFrom_cycle {step : Step} {all : List Step} (hnodup : steps.Nodup)
    (hcomes : walkFrom (options.withMaxSteps none) fuel steps current log =
      some (.error (.cycle step all), later)) :
    ∃ earlier, all = earlier ++ [step] ∧ step ∈ earlier ∧ earlier.Nodup := by
  induction fuel generalizing steps current with
  | zero => cases hcomes
  | succ fuel ih =>
      by_cases hagain : current ∈ steps
      · rw [walkFrom_succ, WalkOptions.refusal_of_mem hagain] at hcomes
        cases hcomes
        exact ⟨steps, rfl, hagain, hnodup⟩
      · obtain ⟨hdecided, -⟩ | ⟨next, -, honward⟩ := walkFrom_unlimited hsteady hagain hcomes
        · exact absurd rfl ((WalkOptions.steps_of_decision hdecided).2 step all)
        · refine ih (List.nodup_append.mpr ⟨hnodup, List.nodup_singleton current, ?_⟩) honward
          rintro one hmem last hsame rfl
          rw [List.mem_singleton] at hsame
          exact hagain (hsame ▸ hmem)

/-- By the provided rules a walk without a limit comes to something if it has fuel for every record
    at every index. -/
theorem exists_walkFrom_eq_some (hprovided : options.rules.Provided) {ids : List RecordId}
    (hcomplete : ∀ id record, answers id = .found record → id ∈ ids) (greatest : Nat)
    (henough : ids.length * (greatest + 1) < steps.length + fuel) (hnodup : steps.Nodup)
    (hinside : ∀ step ∈ steps, step.id ∈ ids ∧ step.charIndex ≤ greatest)
    (hle : current.charIndex ≤ greatest) :
    ∃ result later,
      walkFrom (options.withMaxSteps none) fuel steps current log = some (result, later) := by
  induction fuel generalizing steps current with
  | zero =>
      have hfew := Step.length_le_of_nodup hnodup hinside
      omega
  | succ fuel ih =>
      rw [walkFrom_succ]
      by_cases hagain : current ∈ steps
      · rw [WalkOptions.refusal_of_mem hagain]
        exact ⟨_, _, rfl⟩
      · rw [WalkOptions.refusal_unlimited hagain, hsteady.poll, WalkOptions.decision_withMaxSteps]
        cases hdecided : options.decision (steps ++ [current]) current
            (settle (.ok (answers current.id))) with
        | inl result => exact ⟨_, _, rfl⟩
        | inr next =>
            obtain ⟨record, hanswer, happlied⟩ := WalkOptions.decision_eq_next hdecided
            have hfound : answers current.id = .found record :=
              Except.ok.inj (eq_found_of_settle hanswer)
            obtain ⟨-, -, -, hdown⟩ := RuleTable.apply_eq_next hprovided happlied
            refine ih ?_ ?_ ?_ (Nat.le_trans hdown hle)
            · rw [List.length_append, List.length_singleton]
              omega
            · refine List.nodup_append.mpr ⟨hnodup, List.nodup_singleton current, ?_⟩
              rintro one hmem last hsame rfl
              rw [List.mem_singleton] at hsame
              exact hagain (hsame ▸ hmem)
            · refine List.forall_mem_append.mpr ⟨hinside, List.forall_mem_singleton.mpr ?_⟩
              exact ⟨hcomplete _ _ hfound, hle⟩

end Steady

theorem FixedLog.mem_ids_of_fetch {log : FixedLog} {id : RecordId} {record : Record}
    (hfound : log.fetch id = .found record) : id ∈ log.records.map (·.id) := by
  unfold FixedLog.fetch at hfound
  split at hfound
  · cases hfound
  split at hfound
  · rename_i hthere
    exact mem_ids_of_find hthere
  · cases hfound

/-- Over any table of records, some of which may be waited for, a walk that may take `m` steps comes
    to what the walk without a limit comes to if that takes no more; the repetition that shows a
    cycle does not count. Otherwise it fails, with exactly the first `m` of those steps. -/
theorem walk_limited (log : FixedLog) (options : WalkOptions) (hprovided : options.rules.Provided)
    (start : Step) (m : Nat) :
    let unlimited := (walk (options.withMaxSteps none) start log).1
    let limited := (walk (options.withMaxSteps (some m)) start log).1
    let failure : Except WalkError Trace := .error (.tooLong m ((stepsOf unlimited).take m))
    (∀ step steps, unlimited = .error (.cycle step steps) →
      ∃ earlier, steps = earlier ++ [step] ∧ step ∈ earlier ∧ earlier.Nodup ∧
        limited = if earlier.length ≤ m then unlimited else failure) ∧
    ((∀ step steps, unlimited ≠ .error (.cycle step steps)) →
      limited = if (stepsOf unlimited).length ≤ m then unlimited else failure) := by
  intro unlimited limited failure
  have hcomplete : ∀ id record, log.fetch id = .found record → id ∈ log.records.map (·.id) :=
    fun _ _ => FixedLog.mem_ids_of_fetch
  have henough : (log.records.map (·.id)).length * (start.charIndex + 1) <
      ([] : List Step).length + (RecordLog.size log * (start.charIndex + 1) + 2) := by
    rw [List.length_map, List.length_nil, Nat.zero_add]
    exact Nat.lt_add_of_pos_right Nat.two_pos
  obtain ⟨result, later, hcomes⟩ := exists_walkFrom_eq_some log.steady hprovided hcomplete
    start.charIndex henough List.nodup_nil (List.forall_mem_nil _) (Nat.le_refl _)
  have hwhole : unlimited = result := congrArg Prod.fst (walk_eq_of_walkFrom hcomes)
  have hcut : limited = cutOff m result := congrArg Prod.fst
    (walk_eq_of_walkFrom (walkFrom_limited log.steady (Nat.zero_le m) hcomes))
  constructor
  · intro step steps hcycle
    rw [hwhole] at hcycle
    rw [hcycle] at hcomes
    obtain ⟨earlier, rfl, hagain, hnodup⟩ :=
      steps_of_walkFrom_cycle log.steady List.nodup_nil hcomes
    refine ⟨earlier, rfl, hagain, hnodup, ?_⟩
    rw [hcut, hcycle, cutOff_of_cycle]
    simp only [failure, hwhole, hcycle]
    rfl
  · intro hother
    rw [hwhole] at hother
    rw [hcut, cutOff_of_not_cycle hother]
    simp only [failure, hwhole]

/-- The cycle takes five distinct steps, so a limit of five still lets it be seen. A walk to a
record that is not there takes one step. -/
theorem walk_limited_entangled :
    let log : FixedLog := ⟨entangled, []⟩
    let limited (m : Nat) (start : Step) :=
      (walk (WalkOptions.withMaxSteps {} (some m)) start log).1
    let steps : List Step := [⟨⟨1⟩, 5⟩, ⟨⟨2⟩, 3⟩, ⟨⟨1⟩, 3⟩, ⟨⟨2⟩, 1⟩, ⟨⟨1⟩, 1⟩]
    ({} : WalkOptions).rules.Provided ∧
    limited 5 ⟨⟨1⟩, 5⟩ = .error (.cycle ⟨⟨2⟩, 1⟩ (steps ++ [⟨⟨2⟩, 1⟩])) ∧
      limited 4 ⟨⟨1⟩, 5⟩ = .error (.tooLong 4 (steps.take 4)) ∧
      limited 1 ⟨⟨3⟩, 0⟩ = .error (.notFound ⟨3⟩ [⟨⟨3⟩, 0⟩]) ∧
      limited 0 ⟨⟨3⟩, 0⟩ = .error (.tooLong 0 []) := by
  intro log limited steps
  have hprovided : ({} : WalkOptions).rules.Provided := RuleTable.standard_provided
  have hcycle : (walk (WalkOptions.withMaxSteps {} none) ⟨⟨1⟩, 5⟩ log).1 =
      .error (.cycle ⟨⟨2⟩, 1⟩ (steps ++ [⟨⟨2⟩, 1⟩])) := by rfl
  have hmissing : (walk (WalkOptions.withMaxSteps {} none) ⟨⟨3⟩, 0⟩ log).1 =
      .error (.notFound ⟨3⟩ [⟨⟨3⟩, 0⟩]) := by rfl
  obtain ⟨five, hwhole, -, -, hwithin⟩ := (walk_limited log {} hprovided ⟨⟨1⟩, 5⟩ 5).1 _ _ hcycle
  obtain ⟨four, hwhole', -, -, hbeyond⟩ := (walk_limited log {} hprovided ⟨⟨1⟩, 5⟩ 4).1 _ _ hcycle
  obtain rfl : steps = five := List.append_cancel_right hwhole
  obtain rfl : steps = four := List.append_cancel_right hwhole'
  have hlast := (walk_limited log {} hprovided ⟨⟨3⟩, 0⟩ 1).2
  have hearly := (walk_limited log {} hprovided ⟨⟨3⟩, 0⟩ 0).2
  rw [hcycle] at hwithin hbeyond
  rw [hmissing] at hlast hearly
  exact ⟨hprovided, hwithin, hbeyond, hlast nofun, hearly nofun⟩

end Provenance
