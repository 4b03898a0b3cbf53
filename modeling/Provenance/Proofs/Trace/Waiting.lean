import Provenance.Proofs.Log.Shared
import Provenance.Proofs.Trace.Backward
import Provenance.Proofs.Trace.Lockstep

/-! # Walks over buffered logs

A walk over a buffered log can only be held up at its start. Once the record of a step is written,
the records that it refers to are written as well, so every further look-up is answered as it is in
memory, whatever writes happen or fail in the meantime.
-/

namespace Provenance

/-- The times at which a record is looked up that keeps waiting: now, after every sleep, and when
the time is over. -/
def WalkLimits.lookUps (limits : WalkLimits) (deadline : Nat) : (sleeps : Nat) → Nat → List Nat
  | 0, now => [now]
  | sleeps + 1, now =>
    if deadline ≤ now then [now]
    else now :: limits.lookUps deadline sleeps (now + limits.sleep (deadline - now))

namespace Shared

/-- Whether a record still waits when it has been looked up for as long as the limits allow. -/
def StaysWaiting (shared : Shared) (id : RecordId) (limits : WalkLimits) (now : Nat) : Prop :=
  ((limits.lookUps (now + limits.timeout) limits.timeout now).foldl
    (fun shared time => shared.next time) shared).log.Waits id

instance (shared : Shared) (id : RecordId) (limits : WalkLimits) (now : Nat) :
    Decidable (shared.StaysWaiting id limits now) :=
  inferInstanceAs (Decidable (BufferedLog.Waits _ id))

theorem fetch_of_waits {shared : Shared} {id : RecordId} {now : Nat}
    (hwaits : (shared.next now).log.Waits id) :
    RecordLog.fetch id now shared = (.ok .notYetAvailable, shared.next now) :=
  congrArg (·, shared.next now) (BufferedLog.lookUp_of_waits hwaits)

/-- A log that nobody else uses. -/
theorem walkFrom_alone (options : WalkOptions) (fuel : Nat) (start : Step) (log : BufferedLog) :
    walkFrom options fuel [] start (Shared.mk log []) =
      (walkFrom options fuel [] start log).map fun comes => (comes.1, ⟨comes.2, []⟩) :=
  walkFrom_map (f := fun log => Shared.mk log []) (fun _ _ _ => rfl) options fuel [] start log

theorem walk_alone (options : WalkOptions) (start : Step) (log : BufferedLog) :
    walk options start (Shared.mk log []) =
      ((walk options start log).1, ⟨(walk options start log).2, []⟩) := by
  unfold walk
  dsimp only
  rw [walkFrom_alone]
  change ((walkFrom options (RecordLog.size log * (start.charIndex + 1) + 2) [] start log).map
    _).getD _ = _
  cases walkFrom options (RecordLog.size log * (start.charIndex + 1) + 2) [] start log <;> rfl

end Shared

theorem MemoryLog.Reached.poll_eq {memory : MemoryLog} (hreached : memory.Reached)
    (limits : WalkLimits) (now : Nat) (id : RecordId) :
    poll limits now id memory = (settle (.ok (memory.fetch id)), memory) :=
  poll_of_answer rfl fun hwaits => hreached.ready id (Except.ok.inj hwaits)

namespace Together

variable {memory : MemoryLog} {shared : Shared} {id : RecordId} {limits : WalkLimits}
  {deadline sleeps now : Nat} (htogether : Together memory shared.log)
  (hroom : memory.records.length < RecordId.bound)

section

include htogether hroom

theorem later_fetch (id : RecordId) (now : Nat) :
    Later memory shared.log (RecordLog.fetch id now shared).2.log :=
  htogether.later_next hroom now

theorem later_lookUps (times : List Nat) :
    Later memory shared.log (times.foldl (fun shared time => shared.next time) shared).log := by
  induction times generalizing shared with
  | nil => exact .refl htogether
  | cons time times ih =>
      have hfirst := htogether.later_next hroom time
      exact hfirst.trans (ih hfirst.together)

theorem later_poll (limits : WalkLimits) (now : Nat) (id : RecordId) :
    Later memory shared.log (poll limits now id shared).2.log :=
  poll_keeps (P := fun after => Later memory shared.log after.log)
    (fun id now _ hbefore => hbefore.trans (hbefore.together.later_fetch hroom id now))
    limits now id shared (.refl htogether)

theorem later_walkFrom {options : WalkOptions} {fuel : Nat} {steps : List Step} {current : Step}
    {result : Except WalkError Trace} {later : Shared}
    (hcomes : walkFrom options fuel steps current shared = some (result, later)) :
    Later memory shared.log later.log :=
  walkFrom_keeps (P := fun after => Later memory shared.log after.log)
    (fun id now _ hbefore => hbefore.trans (hbefore.together.later_fetch hroom id now)) hcomes
    (.refl htogether)

/-- What still waits after all the look-ups waited at each of them. -/
theorem waits_of_lookUps
    (hstays : ((limits.lookUps deadline sleeps now).foldl (fun shared time => shared.next time)
      shared).log.Waits id) : (shared.next now).log.Waits id := by
  have hfirst := htogether.later_next hroom now
  cases sleeps with
  | zero => exact hstays
  | succ sleeps =>
      rw [WalkLimits.lookUps] at hstays
      split at hstays
      · exact hstays
      · exact (hfirst.together.later_lookUps hroom _).waits id hstays

theorem waits_of_stays (hstays : shared.StaysWaiting id limits now) : shared.log.Waits id :=
  (htogether.later_next hroom now).waits id (htogether.waits_of_lookUps hroom hstays)

theorem pollUntil_of_stays
    (hstays : ((limits.lookUps deadline sleeps now).foldl (fun shared time => shared.next time)
      shared).log.Waits id) :
    (pollUntil limits deadline id sleeps now shared).1 = .ok .timedOut := by
  induction sleeps generalizing now shared with
  | zero => exact congrArg settle (BufferedLog.lookUp_of_waits hstays)
  | succ sleeps ih =>
      have hfetched := Shared.fetch_of_waits (htogether.waits_of_lookUps hroom hstays)
      rw [WalkLimits.lookUps] at hstays
      split at hstays
      · rename_i hexpired
        rw [pollUntil_of_expired hexpired, hfetched]
        rfl
      · rename_i hearly
        rw [pollUntil_of_waits hfetched (Nat.lt_of_not_le hearly)]
        exact ih (htogether.later_next hroom now).together hstays

/-- The wait for a record that stays in the buffer is in vain. -/
theorem poll_of_stays (hstays : shared.StaysWaiting id limits now) :
    (poll limits now id shared).1 = .ok .timedOut :=
  htogether.pollUntil_of_stays hroom hstays

/-- A walk is held up at a start that stays in the buffer. -/
theorem walk_of_stays (options : WalkOptions) (hunlimited : options.limits.maxSteps = none)
    (start : Step) (hstays : shared.StaysWaiting start.id options.limits options.now) :
    (walk options start shared).1 =
      if options.optimistic then .ok ⟨[start], .incomplete start.id⟩
      else .error (.timedOut start.id options.limits.timeout [start]) := by
  rw [walk, walkFrom_succ, WalkOptions.refusal_start hunlimited,
    htogether.poll_of_stays hroom hstays]
  rfl

end

variable (hstorable : ∀ record ∈ memory.records, record.Storable)

include htogether hroom hstorable

theorem pollUntil_of_not_stays
    (hfree : ¬ ((limits.lookUps deadline sleeps now).foldl (fun shared time => shared.next time)
      shared).log.Waits id) :
    (pollUntil limits deadline id sleeps now shared).1 = settle (.ok (memory.fetch id)) ∧
      ¬ (pollUntil limits deadline id sleeps now shared).2.log.Waits id := by
  induction sleeps generalizing now shared with
  | zero =>
      have hfirst := htogether.later_next hroom now
      exact ⟨congrArg settle (hfirst.together.lookUp_of_not_waits hroom hstorable hfree), hfree⟩
  | succ sleeps ih =>
      have hfirst := htogether.later_next hroom now
      by_cases hwaits : (shared.next now).log.Waits id
      · have hfetched := Shared.fetch_of_waits hwaits
        rw [WalkLimits.lookUps] at hfree
        split at hfree
        · exact absurd hwaits hfree
        · rename_i hearly
          rw [pollUntil_of_waits hfetched (Nat.lt_of_not_le hearly)]
          exact ih hfirst.together hfree
      · have hfetched : RecordLog.fetch id now shared = (.ok (memory.fetch id), shared.next now) :=
          congrArg (·, shared.next now) (hfirst.together.lookUp_of_not_waits hroom hstorable hwaits)
        rw [pollUntil_of_answer hfetched fun hlater =>
          htogether.reached.ready id (Except.ok.inj hlater)]
        exact ⟨rfl, hwaits⟩

/-- A record that does not stay in the buffer is answered as in memory, and waits no longer. -/
theorem poll_of_not_stays (hfree : ¬ shared.StaysWaiting id limits now) :
    (poll limits now id shared).1 = (poll limits now id memory).1 ∧
      ¬ (poll limits now id shared).2.log.Waits id := by
  rw [htogether.reached.poll_eq]
  exact htogether.pollUntil_of_not_stays hroom hstorable hfree

/-- A record that a wait ends with is the one in memory, and waits no longer. -/
theorem poll_eq_found {record : Record}
    (hfound : (poll limits now id shared).1 = .ok (.found record)) :
    memory.fetch id = .found record ∧ ¬ (poll limits now id shared).2.log.Waits id := by
  have hfree : ¬ shared.StaysWaiting id limits now := by
    intro hstays
    rw [htogether.poll_of_stays hroom hstays] at hfound
    cases hfound
  obtain ⟨hsame, hthere⟩ := htogether.poll_of_not_stays hroom hstorable hfree
  rw [hfound, htogether.reached.poll_eq] at hsame
  exact ⟨Except.ok.inj (eq_found_of_settle hsame.symm), hthere⟩

/-- Where the record of a step is there, so are those that it refers to. -/
theorem not_stays_of_apply {options : WalkOptions} (hprovided : options.rules.Provided)
    {step next : Step} {record : Record}
    (hfound : (poll options.limits options.now step.id shared).1 = .ok (.found record))
    (happlied : options.rules.apply record step.charIndex = some (.next next)) :
    ¬ (poll options.limits options.now step.id shared).2.StaysWaiting next.id options.limits
      options.now := by
  have hlater := htogether.later_poll hroom options.limits options.now step.id
  obtain ⟨hstored, hthere⟩ := htogether.poll_eq_found hroom hstorable hfound
  obtain ⟨operand, hmem, htracked, -⟩ := RuleTable.apply_eq_next hprovided happlied
  have hreferred : next.id ∈ record.references := Operation.mem_references hmem htracked
  have hgone := hlater.together.not_waits_of_mem hroom hthere hstored hreferred
  exact fun hstays => hgone (hlater.together.waits_of_stays hroom hstays)

/-- Once the record of the start is there, nothing holds up the walk. -/
theorem walkFrom_of_not_stays (options : WalkOptions) (hprovided : options.rules.Provided)
    (start : Step) (hfree : ¬ shared.StaysWaiting start.id options.limits options.now)
    (fuel : Nat) : (walkFrom options fuel [] start shared).map Prod.fst =
      (walkFrom options fuel [] start memory).map Prod.fst := by
  let R (step : Step) (after : Shared) (same : MemoryLog) : Prop := same = memory ∧
    Together memory after.log ∧ ¬ after.StaysWaiting step.id options.limits options.now
  refine walkFrom_alike (R := R) ?alike ?leads fuel [] start shared memory ⟨rfl, htogether, hfree⟩
  case alike =>
    rintro step after _ ⟨rfl, htogether, hfree⟩
    exact (htogether.poll_of_not_stays hroom hstorable hfree).1
  case leads =>
    rintro step after _ record next ⟨rfl, htogether, hfree⟩ hfound happlied
    refine ⟨?_, (htogether.later_poll hroom options.limits options.now step.id).together,
      htogether.not_stays_of_apply hroom hstorable hprovided hfound happlied⟩
    rw [htogether.reached.poll_eq]

theorem walk_of_not_stays (options : WalkOptions) (hprovided : options.rules.Provided)
    (start : Step) (hfree : ¬ shared.StaysWaiting start.id options.limits options.now) :
    (walk options start shared).1 = (walk options start memory).1 :=
  walk_eq_of_walkFrom_map (htogether.size_eq hroom)
    (htogether.walkFrom_of_not_stays hroom hstorable options hprovided start hfree)

/-- A walk by the provided rules has fuel enough. -/
theorem comes_walk (options : WalkOptions) (hprovided : options.rules.Provided)
    (hunlimited : options.limits.maxSteps = none) (start : Step) :
    Comes options start shared (walk options start shared).1 (walk options start shared).2 := by
  suffices henough : ∃ comes, walkFrom options
      (RecordLog.size shared * (start.charIndex + 1) + 2) [] start shared = some comes by
    obtain ⟨⟨result, later⟩, hcomes⟩ := henough
    rw [walk_eq_of_walkFrom hcomes]
    exact ⟨_, hcomes⟩
  by_cases hstays : shared.StaysWaiting start.id options.limits options.now
  · rw [walkFrom_succ, WalkOptions.refusal_start hunlimited, htogether.poll_of_stays hroom hstays]
    exact ⟨_, rfl⟩
  · obtain ⟨-, result, hcomes, -⟩ := htogether.reached.walkFrom_fate hprovided hunlimited start
    have hsame := htogether.walkFrom_of_not_stays hroom hstorable options hprovided start hstays
      (RecordLog.size memory * (start.charIndex + 1) + 2)
    rw [hcomes] at hsame
    obtain ⟨comes, hwalks, -⟩ := Option.map_eq_some_iff.mp hsame
    have hsizes : RecordLog.size shared = RecordLog.size memory := htogether.size_eq hroom
    exact ⟨comes, hsizes ▸ hwalks⟩

end Together

section Buffered

variable {memory : MemoryLog} {log : BufferedLog} (htogether : Together memory log)
  (hroom : memory.records.length < RecordId.bound)
  (hstorable : ∀ record ∈ memory.records, record.Storable)

include htogether hroom hstorable

/-- What can be looked up refers to nothing that waits. -/
theorem BufferedLog.fetch_closed {id reference : RecordId} {record : Record} {now : Nat}
    {failure : Option LogError} (hfound : (log.fetch id now failure).1 = .ok (.found record))
    (hmem : reference ∈ record.references) (hgiven : reference ≠ ⟨0⟩) :
    ∃ source, (log.fetch reference now failure).1 = .ok (.found source) := by
  have hafter : Together memory (log.flushIfDue now failure).2 :=
    htogether.quiet (.flushIfDue now failure)
  change (log.flushIfDue now failure).2.lookUp id = _ at hfound
  change ∃ source, (log.flushIfDue now failure).2.lookUp reference = _
  have hthere : ¬ (log.flushIfDue now failure).2.Waits id := by
    intro hwaits
    rw [lookUp_of_waits hwaits] at hfound
    cases hfound
  rw [hafter.lookUp_of_not_waits hroom hstorable hthere] at hfound
  have hstored := Except.ok.inj hfound
  rw [hafter.lookUp_of_not_waits hroom hstorable
    (hafter.not_waits_of_mem hroom hthere hstored hmem)]
  have hclosed := htogether.reached.isClosed (RecordId.lt_size_of_lt_bound hroom)
  obtain ⟨source, hfound⟩ := hclosed.closed id record hstored reference hmem hgiven
  exact ⟨source, congrArg Except.ok hfound⟩

/-- A walk over a buffered log is held up at its start or not at all, whatever others do to the log
    and whichever writes fail on the way. -/
theorem walk_over_buffer (options : WalkOptions) (hprovided : options.rules.Provided)
    (hunlimited : options.limits.maxSteps = none) (start : Step) :
    (∀ id now failure record, (log.fetch id now failure).1 = .ok (.found record) →
      ∀ reference ∈ record.references, reference ≠ ⟨0⟩ →
        ∃ source, (log.fetch reference now failure).1 = .ok (.found source)) ∧
    (∀ turns, (walk options start (Shared.mk log turns)).1 =
      if (Shared.mk log turns).StaysWaiting start.id options.limits options.now then
        if options.optimistic then .ok ⟨[start], .incomplete start.id⟩
        else .error (.timedOut start.id options.limits.timeout [start])
      else (walk options start memory).1) ∧
    (walk options start log).1 = (walk options start (Shared.mk log [])).1 := by
  refine ⟨?_, ?_, (congrArg Prod.fst (Shared.walk_alone options start log)).symm⟩
  · intro id now failure record hfound reference hmem hgiven
    exact BufferedLog.fetch_closed htogether hroom hstorable hfound hmem hgiven
  · intro turns
    have hshared : Together memory (Shared.mk log turns).log := htogether
    split
    · rename_i hstays
      exact hshared.walk_of_stays hroom options hunlimited start hstays
    · rename_i hfree
      exact hshared.walk_of_not_stays hroom hstorable options hprovided start hfree

end Buffered

/-- A walk from a sum that waits, while all writes fail up to the twenty-first look-up, when the
time is over, and with one that succeeds before the second look-up. -/
theorem walk_over_buffer_late :
    let sum : Draft := Draft.concat ⟨.str "a", some (.stored ⟨1⟩)⟩ ⟨.str "b", none⟩
    let log := ((BufferedLog.append [Draft.stringLiteral "a"] 0 (.openOn {} {})).2.flush.2.append
      [sum] 200).2
    let start : Step := ⟨⟨2⟩, 0⟩
    let failing : Turn := { now := 400, failure := some .duplicateKey }
    let late : Turn := { writes := [.due 500 (some .duplicateKey), .asked none], now := 600 }
    ({} : WalkOptions).rules.Provided ∧
      (walk {} start (Shared.mk log (List.replicate 21 failing))).1 =
        .error (.timedOut ⟨2⟩ 5000 [start]) ∧
      (walk { optimistic := true } start (Shared.mk log (List.replicate 21 failing))).1 =
        .ok ⟨[start], .incomplete ⟨2⟩⟩ ∧
      (walk {} start (Shared.mk log [failing, late, failing])).1 =
        .ok ⟨[start, ⟨⟨1⟩, 0⟩], .origin⟩ := by
  intro sum log start failing late
  have htogether := (((Together.start {}).append [Draft.stringLiteral "a"] 0 none).quiet
    (.flush none)).append [sum] 200 none
  have hresult := fun options hprovided hunlimited =>
    (walk_over_buffer htogether (by decide) (by decide) options hprovided hunlimited start).2.1
  exact ⟨RuleTable.standard_provided,
    (hresult {} RuleTable.standard_provided rfl _).trans (by decide +kernel),
    (hresult { optimistic := true } RuleTable.standard_provided rfl _).trans (by decide +kernel),
    (hresult {} RuleTable.standard_provided rfl _).trans (by decide +kernel)⟩

end Provenance
