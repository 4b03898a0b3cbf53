import Provenance.Proofs.Trace.Polling

/-! # Walks over two logs at once

A walk learns of a log only what its look-ups answer: at each step the answer alone decides how the
walk ends or which step is next. So two walks from one step stay together as long as the two logs
answer alike for the step that they are at, whatever the logs are.
-/

namespace Provenance

variable {σ τ : Type} [RecordLog σ] [RecordLog τ]

/-! ## A single step -/

namespace WalkOptions

/-- Why a walk does not take a step at all, if it does not. -/
def refusal (options : WalkOptions) (steps : List Step) (current : Step) : Option WalkError :=
  if current ∈ steps then some (.cycle current (steps ++ [current]))
  else (options.limits.reached steps.length).map (.tooLong · steps)

/-- What an answer makes of a walk: its result, or its next step. The steps include the one that
    the answer is for. -/
def decision (options : WalkOptions) (steps : List Step) (current : Step) :
    Except LogError Polled → Except WalkError Trace ⊕ Step
  | .error cause => .inl (.error (.log cause))
  | .ok .notFound => .inl (.error (.notFound current.id steps))
  | .ok .timedOut =>
    .inl (if options.optimistic then .ok ⟨steps, .incomplete current.id⟩
      else .error (.timedOut current.id options.limits.timeout steps))
  | .ok (.found record) =>
    match options.rules.apply record current.charIndex with
    | none => .inl (.ok ⟨steps, .unsupported record.kind "no rule registered"⟩)
    | some (.terminal reason) => .inl (.ok ⟨steps, reason.toEnd record.kind⟩)
    | some (.next step) => .inr step

variable {options : WalkOptions} {steps : List Step} {current : Step}

theorem refusal_start (hunlimited : options.limits.maxSteps = none) :
    options.refusal [] current = none := by
  rw [refusal, if_neg List.not_mem_nil, WalkLimits.reached, hunlimited]
  rfl

/-- A walk ends well only at a record that is there, or where it has waited in vain. -/
theorem exists_found_of_decision {answer : Except LogError Polled} {trace : Trace}
    (hends : options.decision steps current answer = .inl (.ok trace))
    (hfinished : ∀ id, trace.ending ≠ .incomplete id) :
    ∃ record, answer = .ok (.found record) := by
  unfold decision at hends
  split at hends
  · cases hends
  · cases hends
  · split at hends
    · cases hends
      exact absurd rfl (hfinished current.id)
    · cases hends
  · exact ⟨_, rfl⟩

theorem decision_eq_next {answer : Except LogError Polled} {next : Step}
    (hgoes : options.decision steps current answer = .inr next) :
    ∃ record, answer = .ok (.found record) ∧
      options.rules.apply record current.charIndex = some (.next next) := by
  unfold decision at hgoes
  split at hgoes
  · cases hgoes
  · cases hgoes
  · cases hgoes
  · rename_i record
    split at hgoes
    · cases hgoes
    · cases hgoes
    · rename_i happlied
      cases hgoes
      exact ⟨record, rfl, happlied⟩

end WalkOptions

theorem walkFrom_succ (options : WalkOptions) (fuel : Nat) (steps : List Step) (current : Step)
    (log : σ) : walkFrom options (fuel + 1) steps current log =
      match options.refusal steps current with
      | some error => some (.error error, log)
      | none =>
        match options.decision (steps ++ [current]) current
          (poll options.limits options.now current.id log).1 with
        | .inl result => some (result, (poll options.limits options.now current.id log).2)
        | .inr next => walkFrom options fuel (steps ++ [current]) next
            (poll options.limits options.now current.id log).2 := by
  rw [walkFrom, WalkOptions.refusal]
  split
  · rfl
  cases options.limits.reached steps.length with
  | some maxSteps => rfl
  | none =>
      obtain ⟨answer, later⟩ := poll options.limits options.now current.id log
      match answer with
      | .error cause => rfl
      | .ok .notFound => rfl
      | .ok .timedOut =>
          dsimp only [Option.map_none, WalkOptions.decision]
          split <;> rfl
      | .ok (.found record) =>
          dsimp only [Option.map_none, WalkOptions.decision]
          cases options.rules.apply record current.charIndex with
          | none => rfl
          | some outcome => cases outcome <;> rfl

/-- How a walk that comes to something does so: it is refused the step, or ends with the answer, or
    goes on. -/
theorem walkFrom_eq_some {options : WalkOptions} {fuel : Nat} {steps : List Step} {current : Step}
    {log later : σ} {result : Except WalkError Trace}
    (hcomes : walkFrom options (fuel + 1) steps current log = some (result, later)) :
    (∃ error, options.refusal steps current = some error ∧ result = .error error ∧ later = log) ∨
      options.refusal steps current = none ∧
        (options.decision (steps ++ [current]) current
            (poll options.limits options.now current.id log).1 = .inl result ∧
          later = (poll options.limits options.now current.id log).2 ∨
        ∃ next, options.decision (steps ++ [current]) current
            (poll options.limits options.now current.id log).1 = .inr next ∧
          walkFrom options fuel (steps ++ [current]) next
            (poll options.limits options.now current.id log).2 = some (result, later)) := by
  rw [walkFrom_succ] at hcomes
  split at hcomes
  · rename_i error hrefused
    cases hcomes
    exact .inl ⟨error, hrefused, rfl, rfl⟩
  · rename_i htaken
    refine .inr ⟨htaken, ?_⟩
    split at hcomes
    · rename_i hends
      cases hcomes
      exact .inl ⟨hends, rfl⟩
    · rename_i next hgoes
      exact .inr ⟨next, hgoes, hcomes⟩

/-! ## Whole walks -/

/-- A walk that comes to something with some fuel comes to the same with more. -/
theorem walkFrom_add_fuel {options : WalkOptions} {fuel : Nat} {steps : List Step} {current : Step}
    {log later : σ} {result : Except WalkError Trace}
    (hcomes : walkFrom options fuel steps current log = some (result, later)) (more : Nat) :
    walkFrom options (fuel + more) steps current log = some (result, later) := by
  induction fuel generalizing steps current log with
  | zero => cases hcomes
  | succ fuel ih =>
      rw [Nat.add_right_comm, walkFrom_succ]
      obtain ⟨error, hrefused, rfl, rfl⟩ | ⟨htaken, ⟨hends, rfl⟩ | ⟨next, hgoes, honward⟩⟩ :=
        walkFrom_eq_some hcomes
      · rw [hrefused]
      · rw [htaken, hends]
      · rw [htaken, hgoes]
        exact ih honward

/-- What a walk comes to if it may take as many steps as it needs, and the log that it leaves. By
    some rules a walk goes on for ever, and comes to nothing. -/
def Comes (options : WalkOptions) (start : Step) (log : σ) (result : Except WalkError Trace)
    (later : σ) : Prop :=
  ∃ fuel, walkFrom options fuel [] start log = some (result, later)

theorem Comes.unique {options : WalkOptions} {start : Step} {log one other : σ}
    {first second : Except WalkError Trace} (hcomes : Comes options start log first one)
    (hcomes' : Comes options start log second other) : first = second ∧ one = other := by
  obtain ⟨fuel, hcomes⟩ := hcomes
  obtain ⟨fuel', hcomes'⟩ := hcomes'
  have hlonger := walkFrom_add_fuel hcomes fuel'
  rw [Nat.add_comm, walkFrom_add_fuel hcomes' fuel] at hlonger
  cases hlonger
  exact ⟨rfl, rfl⟩

theorem walk_eq_of_walkFrom {options : WalkOptions} {start : Step} {log later : σ}
    {result : Except WalkError Trace}
    (hcomes : walkFrom options (RecordLog.size log * (start.charIndex + 1) + 2) [] start log =
      some (result, later)) : walk options start log = (result, later) := by
  rw [walk, hcomes]
  rfl

section Keeps

variable {P : σ → Prop} (hkeeps : ∀ id now log, P log → P (RecordLog.fetch id now log).2)

include hkeeps

/-- What every look-up keeps, a walk keeps. -/
theorem walkFrom_keeps {options : WalkOptions} {fuel : Nat} {steps : List Step} {current : Step}
    {log later : σ} {result : Except WalkError Trace}
    (hcomes : walkFrom options fuel steps current log = some (result, later)) (hholds : P log) :
    P later := by
  induction fuel generalizing steps current log with
  | zero => cases hcomes
  | succ fuel ih =>
      have hpolled := poll_keeps hkeeps options.limits options.now current.id log hholds
      obtain ⟨error, -, -, rfl⟩ | ⟨-, ⟨-, rfl⟩ | ⟨next, -, honward⟩⟩ := walkFrom_eq_some hcomes
      · exact hholds
      · exact hpolled
      · exact ih honward hpolled

end Keeps

/-- What a log becomes by look-ups. -/
inductive Consulted (log : σ) : σ → Prop where
  | refl : Consulted log log
  | fetch {later : σ} (hconsulted : Consulted log later) (id : RecordId) (now : Nat) :
      Consulted log (RecordLog.fetch id now later).2

section Again

variable {R : σ → τ → Prop} {options : WalkOptions} {final : σ} {time : Nat}
  (hagain : ∀ id record one other, R one other →
    (poll options.limits options.now id one).1 = .ok (.found record) →
    Consulted (poll options.limits options.now id one).2 final →
    (poll options.limits time id other).1 = .ok (.found record) ∧
      R (poll options.limits options.now id one).2 (poll options.limits time id other).2)

include hagain

/-- A walk that has ended at a record ends there again, over a log and at a time at which all the
    records that were found up to the end are found as well. -/
theorem walkFrom_again {fuel : Nat} {steps : List Step} {current : Step} {one : σ} {other : τ}
    {trace : Trace} (hrelated : R one other) (hfinished : ∀ id, trace.ending ≠ .incomplete id)
    (hcomes : walkFrom options fuel steps current one = some (.ok trace, final)) :
    ∃ last, walkFrom { options with now := time } fuel steps current other =
      some (.ok trace, last) := by
  induction fuel generalizing steps current one other with
  | zero => cases hcomes
  | succ fuel ih =>
      have hrefusal : { options with now := time }.refusal steps current =
        options.refusal steps current := rfl
      have hdecision : { options with now := time }.decision = options.decision := rfl
      rw [walkFrom_succ, hrefusal, hdecision]
      obtain ⟨error, -, hwrong, -⟩ | ⟨htaken, ⟨hends, rfl⟩ | ⟨next, hgoes, honward⟩⟩ :=
        walkFrom_eq_some hcomes
      · cases hwrong
      · obtain ⟨record, hfound⟩ := WalkOptions.exists_found_of_decision hends hfinished
        obtain ⟨hfound', -⟩ := hagain current.id record one other hrelated hfound .refl
        rw [hfound] at hends
        rw [htaken, hfound', hends]
        exact ⟨_, rfl⟩
      · obtain ⟨record, hfound, -⟩ := WalkOptions.decision_eq_next hgoes
        have hconsulted := walkFrom_keeps (P := Consulted (poll options.limits options.now
          current.id one).2) (fun id now _ hbefore => hbefore.fetch id now) honward .refl
        obtain ⟨hfound', hrelated'⟩ := hagain current.id record one other hrelated hfound hconsulted
        rw [hfound] at hgoes
        rw [htaken, hfound', hgoes]
        exact ih hrelated' honward

end Again

section Map

variable {f : σ → τ} (hsame : ∀ id now log, RecordLog.fetch id now (f log) =
    ((RecordLog.fetch id now log).1, f (RecordLog.fetch id now log).2))

include hsame

/-- A log that only carries more with it than another is walked alike. -/
theorem walkFrom_map (options : WalkOptions) (fuel : Nat) (steps : List Step) (current : Step)
    (log : σ) : walkFrom options fuel steps current (f log) =
      (walkFrom options fuel steps current log).map fun comes => (comes.1, f comes.2) := by
  induction fuel generalizing steps current log with
  | zero => rfl
  | succ fuel ih =>
      rw [walkFrom_succ, walkFrom_succ, poll_map hsame]
      split
      · rfl
      dsimp only
      split
      · rfl
      · exact ih _ _ _

end Map

section Alike

variable {R : Step → σ → τ → Prop} {options : WalkOptions}
  (halike : ∀ step one other, R step one other →
    (poll options.limits options.now step.id one).1 =
      (poll options.limits options.now step.id other).1)
  (hleads : ∀ step one other record next, R step one other →
    (poll options.limits options.now step.id one).1 = .ok (.found record) →
    options.rules.apply record step.charIndex = some (.next next) →
    R next (poll options.limits options.now step.id one).2
      (poll options.limits options.now step.id other).2)

include halike hleads

/-- Two walks that stay together come to the same result. -/
theorem walkFrom_alike (fuel : Nat) (steps : List Step) (current : Step) (one : σ) (other : τ)
    (hrelated : R current one other) :
    (walkFrom options fuel steps current one).map Prod.fst =
      (walkFrom options fuel steps current other).map Prod.fst := by
  induction fuel generalizing steps current one other with
  | zero => rfl
  | succ fuel ih =>
      rw [walkFrom_succ, walkFrom_succ, ← halike current one other hrelated]
      split
      · rfl
      split
      · rfl
      · rename_i hgoes
        obtain ⟨record, hfound, happlied⟩ := WalkOptions.decision_eq_next hgoes
        exact ih _ _ _ _ (hleads current one other record _ hrelated hfound happlied)

end Alike

/-- Walks that come to the same with any fuel come to the same over logs of one size. -/
theorem walk_eq_of_walkFrom_map {options : WalkOptions} {start : Step} {one : σ} {other : τ}
    (hsizes : RecordLog.size one = RecordLog.size other)
    (hsame : ∀ fuel, (walkFrom options fuel [] start one).map Prod.fst =
      (walkFrom options fuel [] start other).map Prod.fst) :
    (walk options start one).1 = (walk options start other).1 := by
  have hsame := hsame (RecordLog.size other * (start.charIndex + 1) + 2)
  unfold walk
  rw [hsizes]
  dsimp only
  revert hsame
  cases walkFrom options _ [] start one <;> cases walkFrom options _ [] start other
  · exact fun _ => rfl
  · exact nofun
  · exact nofun
  · exact Option.some.inj

end Provenance
