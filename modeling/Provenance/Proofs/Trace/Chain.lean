import Mathlib.Data.List.ProdSigma
import Mathlib.Data.List.Nodup
import Mathlib.Data.List.Perm.Subperm
import Provenance.Proofs.Trace.Descent
import Provenance.Proofs.Trace.Lockstep

/-! # The chain of steps

Over a log that answers every look-up by itself, a step determines the next one. The steps
that follow from a start form a chain, which may return to a step, reach a record that is not
there, or stop at a rule that goes no further. A walk takes the steps of the chain up to the
first of these, and its fuel outlasts them: no step before the first return occurs twice, each
of them names a record that is there, and none has a greater index than the start.
-/

namespace Provenance

/-- A log that answers every look-up at once and stays as it is: `find` has its records. -/
def Settled [RecordLog σ] (find : RecordId → Option Record) (log : σ) : Prop :=
  Steady (fun id => match find id with | some record => .found record | none => .notFound) log

theorem Settled.poll [RecordLog σ] {find : RecordId → Option Record} {log : σ}
    (hsettled : Settled find log) (limits : WalkLimits) (now : Nat) (id : RecordId) :
    poll limits now id log =
      (.ok (match find id with | some record => .found record | none => .notFound), log) := by
  rw [Steady.poll hsettled]
  cases find id <;> rfl

/-- There are no more steps than pairs of an identifier and an index up to the greatest. -/
theorem Step.length_le_of_nodup {steps : List Step} {ids : List RecordId} {greatest : Nat}
    (hnodup : steps.Nodup) (hinside : ∀ step ∈ steps, step.id ∈ ids ∧ step.charIndex ≤ greatest) :
    steps.length ≤ ids.length * (greatest + 1) := by
  let pairs := ids ×ˢ List.range (greatest + 1)
  have hcovered : steps ⊆ pairs.map fun pair => ⟨pair.1, pair.2⟩ := by
    intro step hmem
    obtain ⟨hknown, hle⟩ := hinside step hmem
    exact List.mem_map.mpr ⟨(step.id, step.charIndex),
      List.mem_product.mpr ⟨hknown, List.mem_range.mpr (by omega)⟩, rfl⟩
  have hcounted := (List.Nodup.subperm hnodup hcovered).length_le
  simpa [pairs, List.length_product] using hcounted

/-- What the steps from a start depend on. -/
structure Chain where
  rules : RuleTable
  find : RecordId → Option Record
  start : Step

namespace Chain

variable {chain : Chain} {step next : Step} {m n : Nat}

/-- The step that the rule for a step's record leads to. -/
def after (chain : Chain) (step : Step) : Option Step :=
  match chain.find step.id with
  | none => none
  | some record =>
    match chain.rules.apply record step.charIndex with
    | some (.next next) => some next
    | _ => none

/-- Why a trace ends at a step whose record has no rule that leads on. -/
def ending (chain : Chain) (step : Step) : Option TraceEnd :=
  match chain.find step.id with
  | none => none
  | some record =>
    match chain.rules.apply record step.charIndex with
    | none => some (.unsupported record.kind "no rule registered")
    | some (.terminal reason) => some (reason.toEnd record.kind)
    | some (.next _) => none

/-- The steps from the start on. -/
def step? (chain : Chain) : Nat → Option Step
  | 0 => some chain.start
  | n + 1 => (chain.step? n).bind chain.after

/-- The first `n` steps. -/
def upTo (chain : Chain) (n : Nat) : List Step := (List.range n).filterMap chain.step?

/-- The `n`-th step is there, and was there before. -/
def ReturnsAt (chain : Chain) (n : Nat) : Prop :=
  (chain.step? n).isSome ∧ ∃ m < n, chain.step? m = chain.step? n

instance : Decidable (chain.ReturnsAt n) :=
  inferInstanceAs (Decidable ((chain.step? n).isSome ∧ ∃ m < n, chain.step? m = chain.step? n))

/-- The `n`-th step is the first that was there before. -/
def FirstReturn (chain : Chain) (n : Nat) : Prop :=
  chain.ReturnsAt n ∧ ∀ m < n, ¬ chain.ReturnsAt m

instance : Decidable (chain.FirstReturn n) :=
  inferInstanceAs (Decidable (chain.ReturnsAt n ∧ ∀ m < n, ¬ chain.ReturnsAt m))

theorem upTo_succ (h : chain.step? n = some step) :
    chain.upTo (n + 1) = chain.upTo n ++ [step] := by
  simp [upTo, List.range_succ, List.filterMap_append, h]

theorem mem_upTo : step ∈ chain.upTo n ↔ ∃ m < n, chain.step? m = some step := by
  simp [upTo, List.mem_filterMap]

theorem returnsAt_iff (h : chain.step? n = some step) :
    chain.ReturnsAt n ↔ step ∈ chain.upTo n := by
  simp [ReturnsAt, mem_upTo, h]

/-! ## What is there, and what is not -/

theorem after_eq_some (h : chain.after step = some next) :
    ∃ record, chain.find step.id = some record ∧
      chain.rules.apply record step.charIndex = some (.next next) := by
  unfold after at h
  split at h
  · cases h
  · rename_i record hfound
    split at h
    · rename_i happlied
      cases h
      exact ⟨record, hfound, happlied⟩
    · cases h

theorem after_eq_none_of_absent (h : chain.find step.id = none) : chain.after step = none := by
  simp [after, h]

theorem ending_eq_some {reason : TraceEnd} (h : chain.ending step = some reason) :
    ∃ record, chain.find step.id = some record ∧
      (chain.rules.apply record step.charIndex = none ∧
          reason = .unsupported record.kind "no rule registered" ∨
        ∃ terminal, chain.rules.apply record step.charIndex = some (.terminal terminal) ∧
          reason = terminal.toEnd record.kind) := by
  unfold ending at h
  split at h
  · cases h
  · rename_i record hfound
    refine ⟨record, hfound, ?_⟩
    split at h
    · rename_i happlied
      cases h
      exact .inl ⟨happlied, rfl⟩
    · rename_i terminal happlied
      cases h
      exact .inr ⟨terminal, happlied, rfl⟩
    · cases h

theorem after_eq_none_of_ending {reason : TraceEnd} (h : chain.ending step = some reason) :
    chain.after step = none := by
  obtain ⟨record, hfound, ⟨happlied, -⟩ | ⟨terminal, happlied, -⟩⟩ := ending_eq_some h <;>
    simp [after, hfound, happlied]

theorem step?_eq_none_of_le (h : chain.step? m = none) (hle : m ≤ n) : chain.step? n = none := by
  induction hle with
  | refl => exact h
  | step _ ih => simp [step?, ih]

theorem exists_step?_of_le (h : chain.step? n = some step) (hle : m ≤ n) :
    ∃ earlier, chain.step? m = some earlier := by
  cases hmem : chain.step? m with
  | some earlier => exact ⟨earlier, rfl⟩
  | none => simp [step?_eq_none_of_le hmem hle] at h

/-- A step that leads on has a record. -/
theorem exists_find_of_lt (h : chain.step? n = some next) (hless : m < n)
    (hthere : chain.step? m = some step) : ∃ record, chain.find step.id = some record := by
  obtain ⟨after, hleads⟩ := exists_step?_of_le h hless
  rw [step?, hthere] at hleads
  obtain ⟨record, hfound, -⟩ := after_eq_some hleads
  exact ⟨record, hfound⟩

theorem head?_upTo_succ : (chain.upTo (n + 1)).head? = some chain.start := by
  simp [upTo, List.range_succ_eq_map, step?]

theorem length_upTo (h : chain.step? n = some step) : (chain.upTo n).length = n := by
  induction n generalizing step with
  | zero => rfl
  | succ n ih =>
      obtain ⟨earlier, he⟩ := exists_step?_of_le h (Nat.le_succ n)
      rw [upTo_succ he, List.length_append, ih he]
      rfl

/-- Where the chain returns, it goes round and never ends. -/
theorem step?_add_of_eq (h : chain.step? m = chain.step? n) (k : Nat) :
    chain.step? (m + k) = chain.step? (n + k) := by
  induction k with
  | zero => exact h
  | succ k ih => rw [← Nat.add_assoc, ← Nat.add_assoc, step?, step?, ih]

theorem ReturnsAt.step?_ne_none (h : chain.ReturnsAt n) (k : Nat) : chain.step? k ≠ none := by
  obtain ⟨hhere, m, hbefore, hthere⟩ := h
  induction k using Nat.strongRecOn with
  | ind k ih =>
      intro hends
      by_cases hle : k ≤ n
      · simp [step?_eq_none_of_le hends hle] at hhere
      · have hround : chain.step? (m + (k - n)) = chain.step? (n + (k - n)) :=
          step?_add_of_eq hthere (k - n)
        rw [show n + (k - n) = k by omega] at hround
        exact ih (m + (k - n)) (by omega) (hround.trans hends)

theorem not_returnsAt_of_over (hpast : chain.step? n = none) : ¬ chain.ReturnsAt m :=
  fun hagain => hagain.step?_ne_none n hpast

theorem exists_firstReturn (hagain : chain.ReturnsAt n) : ∃ m, chain.FirstReturn m := by
  induction n using Nat.strongRecOn with
  | ind n ih =>
      by_cases hearlier : ∃ m < n, chain.ReturnsAt m
      · obtain ⟨m, hless, hsooner⟩ := hearlier
        exact ih m hless hsooner
      · exact ⟨n, hagain, fun m hless hsooner => hearlier ⟨m, hless, hsooner⟩⟩

theorem nodup_upTo (h : ∀ m < n, ¬ chain.ReturnsAt m) : (chain.upTo n).Nodup := by
  induction n with
  | zero => exact List.nodup_nil
  | succ n ih =>
      have hbefore := ih fun m hmem => h m (Nat.lt_succ_of_lt hmem)
      cases hhere : chain.step? n with
      | none => simpa [upTo, List.range_succ, List.filterMap_append, hhere] using hbefore
      | some step =>
          rw [upTo_succ hhere, List.nodup_append]
          refine ⟨hbefore, List.nodup_singleton step, ?_⟩
          intro earlier hmem last hsame
          rw [List.mem_singleton] at hsame
          rintro rfl
          subst hsame
          exact h n (Nat.lt_succ_self n) ((returnsAt_iff hhere).mpr hmem)

/-! ## How many steps there can be -/

theorem charIndex_le (hprovided : chain.rules.Provided) (h : chain.step? n = some step) :
    step.charIndex ≤ chain.start.charIndex := by
  induction n generalizing step with
  | zero =>
      cases h
      exact Nat.le_refl _
  | succ n ih =>
      obtain ⟨earlier, hthere, hleads⟩ := Option.bind_eq_some_iff.mp h
      obtain ⟨record, -, happlied⟩ := after_eq_some hleads
      obtain ⟨-, -, -, hle⟩ := RuleTable.apply_eq_next hprovided happlied
      exact Nat.le_trans hle (ih hthere)

/-- Before the chain first returns, it cannot be longer than there are pairs of a record and
    an index up to the one of the start. -/
theorem le_of_not_returnsAt (hprovided : chain.rules.Provided) {ids : List RecordId}
    (hcomplete : ∀ id record, chain.find id = some record → id ∈ ids)
    (hhere : chain.step? n = some step) (hfresh : ∀ m < n, ¬ chain.ReturnsAt m) :
    n ≤ ids.length * (chain.start.charIndex + 1) := by
  have hinside : ∀ step ∈ chain.upTo n,
      step.id ∈ ids ∧ step.charIndex ≤ chain.start.charIndex := by
    intro earlier hmem
    obtain ⟨m, hbefore, hthere⟩ := mem_upTo.mp hmem
    obtain ⟨record, hfound⟩ := exists_find_of_lt hhere hbefore hthere
    exact ⟨hcomplete _ _ hfound, charIndex_le hprovided hthere⟩
  rw [← length_upTo hhere]
  exact Step.length_le_of_nodup (nodup_upTo hfresh) hinside

/-! ## What a walk comes to -/

/-- What a walk comes to if the chain is over at its `n`-th step. -/
inductive Fate (chain : Chain) (n : Nat) : Except WalkError Trace → Prop where
  | returns {step : Step} (hhere : chain.step? n = some step) (hagain : chain.ReturnsAt n) :
    Fate chain n (.error (.cycle step (chain.upTo (n + 1))))
  | absent {step : Step} (hhere : chain.step? n = some step) (habsent : chain.find step.id = none) :
    Fate chain n (.error (.notFound step.id (chain.upTo (n + 1))))
  | stops {step : Step} {reason : TraceEnd} (hhere : chain.step? n = some step)
      (hends : chain.ending step = some reason) :
    Fate chain n (.ok ⟨chain.upTo (n + 1), reason⟩)

theorem step?_eq_none_of_absent (hhere : chain.step? n = some step)
    (habsent : chain.find step.id = none) : chain.step? (n + 1) = none := by
  simp [step?, hhere, after_eq_none_of_absent habsent]

theorem step?_eq_none_of_ending {reason : TraceEnd} (hhere : chain.step? n = some step)
    (hends : chain.ending step = some reason) : chain.step? (n + 1) = none := by
  simp [step?, hhere, after_eq_none_of_ending hends]

namespace Fate

variable {result first second : Except WalkError Trace}

theorem exists_step (hfate : chain.Fate n result) : ∃ step, chain.step? n = some step := by
  cases hfate with
  | returns hhere | absent hhere | stops hhere => exact ⟨_, hhere⟩

theorem returnsAt_or_over (hfate : chain.Fate n result) :
    chain.ReturnsAt n ∨ chain.step? (n + 1) = none := by
  cases hfate with
  | returns _ hagain => exact .inl hagain
  | absent hhere habsent => exact .inr (step?_eq_none_of_absent hhere habsent)
  | stops hhere hends => exact .inr (step?_eq_none_of_ending hhere hends)

/-- The chain is over at one place only. -/
theorem place_unique (hfate : chain.Fate m first) (hfresh : ∀ k < m, ¬ chain.ReturnsAt k)
    (hfate' : chain.Fate n second) (hfresh' : ∀ k < n, ¬ chain.ReturnsAt k) : m = n := by
  obtain ⟨_, hhere⟩ := hfate.exists_step
  obtain ⟨_, hhere'⟩ := hfate'.exists_step
  rcases hfate.returnsAt_or_over with hagain | hpast <;>
    rcases hfate'.returnsAt_or_over with hagain' | hpast'
  · exact Nat.le_antisymm (Nat.le_of_not_lt fun hless => hfresh n hless hagain')
      (Nat.le_of_not_lt fun hless => hfresh' m hless hagain)
  · exact absurd hpast' (hagain.step?_ne_none _)
  · exact absurd hpast (hagain'.step?_ne_none _)
  · by_contra hdifferent
    rcases Nat.lt_or_gt_of_ne hdifferent with hless | hgreater
    · simp [step?_eq_none_of_le hpast hless] at hhere'
    · simp [step?_eq_none_of_le hpast' hgreater] at hhere

theorem unique (hfate : chain.Fate m first) (hfresh : ∀ k < m, ¬ chain.ReturnsAt k)
    (hfate' : chain.Fate n second) (hfresh' : ∀ k < n, ¬ chain.ReturnsAt k) : first = second := by
  obtain rfl := hfate.place_unique hfresh hfate' hfresh'
  cases hfate with
  | returns hhere hagain =>
      cases hfate' with
      | returns hhere' => rw [Option.some.inj (hhere.symm.trans hhere')]
      | absent hhere' habsent =>
          exact absurd (step?_eq_none_of_absent hhere' habsent) (hagain.step?_ne_none _)
      | stops hhere' hends =>
          exact absurd (step?_eq_none_of_ending hhere' hends) (hagain.step?_ne_none _)
  | absent hhere habsent =>
      cases hfate' with
      | returns _ hagain =>
          exact absurd (step?_eq_none_of_absent hhere habsent) (hagain.step?_ne_none _)
      | absent hhere' => rw [Option.some.inj (hhere.symm.trans hhere')]
      | stops hhere' hends =>
          obtain rfl := Option.some.inj (hhere.symm.trans hhere')
          simp [Chain.ending, habsent] at hends
  | stops hhere hends =>
      cases hfate' with
      | returns _ hagain =>
          exact absurd (step?_eq_none_of_ending hhere hends) (hagain.step?_ne_none _)
      | absent hhere' habsent =>
          obtain rfl := Option.some.inj (hhere.symm.trans hhere')
          simp [Chain.ending, habsent] at hends
      | stops hhere' hends' =>
          obtain rfl := Option.some.inj (hhere.symm.trans hhere')
          rw [Option.some.inj (hends.symm.trans hends')]

theorem eq_cycle_iff {steps : List Step} (hfate : chain.Fate n result)
    (hfresh : ∀ k < n, ¬ chain.ReturnsAt k) :
    result = .error (.cycle step steps) ↔
      ∃ k, chain.FirstReturn k ∧ chain.step? k = some step ∧ steps = chain.upTo (k + 1) := by
  constructor
  · rintro rfl
    cases hfate with
    | returns hhere hagain => exact ⟨n, ⟨hagain, hfresh⟩, hhere, rfl⟩
  · rintro ⟨k, ⟨hagain, hfirst⟩, hhere, rfl⟩
    exact hfate.unique hfresh (.returns hhere hagain) hfirst

theorem exists_cycle_iff (hfate : chain.Fate n result) (hfresh : ∀ k < n, ¬ chain.ReturnsAt k) :
    (∃ step steps, result = .error (.cycle step steps)) ↔ ∃ k, chain.ReturnsAt k := by
  constructor
  · rintro ⟨step, steps, hshown⟩
    obtain ⟨k, hfirst, -, -⟩ := (hfate.eq_cycle_iff hfresh).mp hshown
    exact ⟨k, hfirst.1⟩
  · rintro ⟨k, hagain⟩
    obtain ⟨first, hfirstReturn⟩ := exists_firstReturn hagain
    obtain ⟨step, hthere⟩ := Option.isSome_iff_exists.mp hfirstReturn.1.1
    exact ⟨step, _, (hfate.eq_cycle_iff hfresh).mpr ⟨first, hfirstReturn, hthere, rfl⟩⟩

/-- A cycle is reported at a step that was taken before, and at no other step twice. -/
theorem steps_of_cycle {steps : List Step} (hfate : chain.Fate n result)
    (hfresh : ∀ k < n, ¬ chain.ReturnsAt k) (hshown : result = .error (.cycle step steps)) :
    ∃ earlier, steps = earlier ++ [step] ∧ step ∈ earlier ∧ earlier.Nodup := by
  obtain ⟨k, ⟨hagain, hfirst⟩, hhere, rfl⟩ := (hfate.eq_cycle_iff hfresh).mp hshown
  exact ⟨chain.upTo k, upTo_succ hhere, (returnsAt_iff hhere).mp hagain, nodup_upTo hfirst⟩

theorem eq_notFound_iff {id : RecordId} {steps : List Step} (hfate : chain.Fate n result)
    (hfresh : ∀ k < n, ¬ chain.ReturnsAt k) :
    result = .error (.notFound id steps) ↔ ∃ k step, chain.step? k = some step ∧
      chain.find step.id = none ∧ id = step.id ∧ steps = chain.upTo (k + 1) := by
  constructor
  · rintro rfl
    cases hfate with
    | absent hhere habsent => exact ⟨n, _, hhere, habsent, rfl, rfl⟩
  · rintro ⟨k, step, hhere, habsent, rfl, rfl⟩
    have hpast := step?_eq_none_of_absent hhere habsent
    exact hfate.unique hfresh (.absent hhere habsent) fun _ _ => not_returnsAt_of_over hpast

theorem eq_ok_iff {trace : Trace} (hfate : chain.Fate n result)
    (hfresh : ∀ k < n, ¬ chain.ReturnsAt k) :
    result = .ok trace ↔ ∃ k step reason, chain.step? k = some step ∧
      chain.ending step = some reason ∧ trace = ⟨chain.upTo (k + 1), reason⟩ := by
  constructor
  · rintro rfl
    cases hfate with
    | stops hhere hends => exact ⟨n, _, _, hhere, hends, rfl⟩
  · rintro ⟨k, step, reason, hhere, hends, rfl⟩
    have hpast := step?_eq_none_of_ending hhere hends
    exact hfate.unique hfresh (.stops hhere hends) fun _ _ => not_returnsAt_of_over hpast

theorem cases_of_result (hfate : chain.Fate n result) :
    (∃ step steps, result = .error (.cycle step steps)) ∨
      (∃ id steps, result = .error (.notFound id steps)) ∨ ∃ trace, result = .ok trace := by
  cases hfate with
  | returns => exact .inl ⟨_, _, rfl⟩
  | absent => exact .inr (.inl ⟨_, _, rfl⟩)
  | stops => exact .inr (.inr ⟨_, rfl⟩)

end Fate

/-- A walk over a settled log comes to the fate of its chain, at the first place where the
    chain is over. The steps taken so far are the first `n` of the chain. -/
theorem walkFrom_fate [RecordLog σ] {log : σ} (hsettled : Settled chain.find log)
    (hprovided : chain.rules.Provided)
    {ids : List RecordId} (hcomplete : ∀ id record, chain.find id = some record → id ∈ ids)
    {options : WalkOptions} (hrules : options.rules = chain.rules)
    (hunlimited : options.limits.maxSteps = none) (fuel : Nat) {n : Nat} {current : Step}
    (hhere : chain.step? n = some current) (hfresh : ∀ k < n, ¬ chain.ReturnsAt k)
    (henough : ids.length * (chain.start.charIndex + 1) < fuel + n) :
    ∃ m result, walkFrom options fuel (chain.upTo n) current log = some (result, log) ∧
      chain.Fate m result ∧ ∀ k < m, ¬ chain.ReturnsAt k := by
  induction fuel generalizing n current with
  | zero =>
      have := le_of_not_returnsAt hprovided hcomplete hhere hfresh
      omega
  | succ fuel ih =>
      have hlonger := upTo_succ hhere
      unfold walkFrom
      by_cases hagain : current ∈ chain.upTo n
      · rw [if_pos hagain, ← hlonger]
        exact ⟨n, _, rfl, .returns hhere ((returnsAt_iff hhere).mpr hagain), hfresh⟩
      · have hnew : ¬ chain.ReturnsAt n := mt (returnsAt_iff hhere).mp hagain
        rw [if_neg hagain]
        simp only [WalkLimits.reached, hunlimited, Option.filter_none, hsettled.poll,
          hrules, ← hlonger]
        cases hfound : chain.find current.id with
        | none => exact ⟨n, _, rfl, .absent hhere hfound, hfresh⟩
        | some record =>
            cases happlied : chain.rules.apply record current.charIndex with
            | none =>
                have hends : chain.ending current =
                    some (.unsupported record.kind "no rule registered") := by
                  simp only [Chain.ending, hfound, happlied]
                simp only [happlied]
                exact ⟨n, _, rfl, .stops hhere hends, hfresh⟩
            | some outcome =>
                cases outcome with
                | terminal reason =>
                    have hends : chain.ending current = some (reason.toEnd record.kind) := by
                      simp only [Chain.ending, hfound, happlied]
                    simp only [happlied]
                    exact ⟨n, _, rfl, .stops hhere hends, hfresh⟩
                | next step =>
                    simp only [happlied]
                    have hleads : chain.step? (n + 1) = some step := by
                      simp [step?, hhere, after, hfound, happlied]
                    have hstillFresh : ∀ k < n + 1, ¬ chain.ReturnsAt k := by
                      intro k hless
                      rcases Nat.lt_succ_iff_lt_or_eq.mp hless with hbefore | rfl
                      · exact hfresh k hbefore
                      · exact hnew
                    exact ih hleads hstillFresh (by omega)

/-- A walk from the start, with fuel for every record at every index. -/
theorem walkFrom_start_fate [RecordLog σ] (chain : Chain) {log : σ}
    (hsettled : Settled chain.find log) (hprovided : chain.rules.Provided) {records : List Record}
    (hcomplete : ∀ id record, chain.find id = some record → id ∈ records.map (·.id))
    {options : WalkOptions} (hrules : options.rules = chain.rules)
    (hunlimited : options.limits.maxSteps = none) {fuel : Nat}
    (henough : records.length * (chain.start.charIndex + 1) < fuel) :
    ∃ m result, walkFrom options fuel [] chain.start log = some (result, log) ∧
      chain.Fate m result ∧ ∀ k < m, ¬ chain.ReturnsAt k := by
  have hnone : ∀ k < 0, ¬ chain.ReturnsAt k := fun k hless => absurd hless (Nat.not_lt_zero k)
  refine walkFrom_fate hsettled hprovided hcomplete hrules hunlimited fuel (n := 0) rfl hnone ?_
  rwa [List.length_map, Nat.add_zero]

end Chain

end Provenance
