import Provenance.Log.Basic
import Provenance.Text.Duration
import Provenance.Trace.Rule

/-! # Walking a log

A walk follows the rules from a step to the next until a rule goes no further. A step that
was taken before would be taken for ever, so it ends the walk. As long as no rule makes the
index larger, a walk from index `k` over `n` records has at most `n * (k + 1)` distinct
steps that lead on; the fuel of a walk is two more, and never runs out. Other rules may lead
on for ever.
-/

namespace Provenance

/-- How long a walk may take. -/
structure WalkLimits where
  /-- Milliseconds between two attempts to fetch a record that is not there yet. -/
  pollInterval : Nat := 250
  /-- Milliseconds to wait for a record. -/
  timeout : Nat := 5000
  /-- The greatest number of steps, if there is one. -/
  maxSteps : Option Nat := none
  deriving DecidableEq, Repr, Inhabited

/-- Why a walk fails, with the steps taken up to then. -/
inductive WalkError where
  | notFound (id : RecordId) (steps : List Step)
  /-- The record did not become available while it was waited for. -/
  | timedOut (id : RecordId) (waited : Nat) (steps : List Step)
  /-- A step was taken a second time. -/
  | cycle (step : Step) (steps : List Step)
  | tooLong (maxSteps : Nat) (steps : List Step)
  | log (cause : LogError)
  deriving DecidableEq, Repr

namespace WalkError

/-- The steps taken before the failure. -/
def steps : WalkError → List Step
  | notFound _ steps => steps
  | timedOut _ _ steps => steps
  | cycle _ steps => steps
  | tooLong _ steps => steps
  | log _ => []

/-- The wording of the error. -/
def message : WalkError → String
  | notFound id _ => "record " ++ id.display ++ " not found"
  | timedOut id waited _ =>
    "record " ++ id.display ++ " not available after " ++ Text.duration waited
  | cycle step _ => "traversal cycle at " ++ step.display
  | tooLong maxSteps _ => "traversal exceeded " ++ toString maxSteps ++ " steps"
  | log cause => "store error: " ++ cause.message

end WalkError

/-- What waiting for a record comes to. -/
inductive Polled where
  | found (record : Record)
  | notFound
  | timedOut

/-- What an answer comes to when there is no time left to wait. -/
def settle : Except LogError Fetch → Except LogError Polled
  | .error cause => .error cause
  | .ok (.found record) => .ok (.found record)
  | .ok .notFound => .ok .notFound
  | .ok .notYetAvailable => .ok .timedOut

/-- How long to sleep if the deadline is so far off: for the interval, or until the deadline. The
    clock counts milliseconds, and no sleep is shorter than one. -/
def WalkLimits.sleep (limits : WalkLimits) (left : Nat) : Nat :=
  max 1 (min limits.pollInterval left)

variable {σ : Type} [RecordLog σ]

/-- Fetches a record, again and again while it is not available and the deadline has not passed.
    `sleeps` bounds the sleeps in between. -/
def pollUntil (limits : WalkLimits) (deadline : Nat) (id : RecordId) :
    (sleeps : Nat) → (now : Nat) → σ → Except LogError Polled × σ
  | 0, now, log =>
    let (answer, log) := RecordLog.fetch id now log
    (settle answer, log)
  | sleeps + 1, now, log =>
    match RecordLog.fetch id now log with
    | (.ok .notYetAvailable, log) =>
      if deadline ≤ now then (.ok .timedOut, log)
      else pollUntil limits deadline id sleeps (now + limits.sleep (deadline - now)) log
    | (answer, log) => (settle answer, log)

/-- Fetches a record, and waits for it if it is not available yet. There are no more sleeps than
    milliseconds to wait. -/
def poll (limits : WalkLimits) (now : Nat) (id : RecordId) (log : σ) : Except LogError Polled × σ :=
  pollUntil limits (now + limits.timeout) id limits.timeout now log

/-- What a walk is asked for. -/
structure WalkOptions where
  rules : RuleTable := .standard
  limits : WalkLimits := {}
  /-- Whether a record that does not arrive ends the trace instead of failing. -/
  optimistic : Bool := false
  /-- The time. -/
  now : Nat := 0

/-- Whether the walk may take no further step. -/
def WalkLimits.reached (limits : WalkLimits) (count : Nat) : Option Nat :=
  limits.maxSteps.filter (· ≤ count)

/-- Goes on with a walk at a step, after the steps taken so far; nothing if the fuel runs out. -/
def walkFrom (options : WalkOptions) :
    (fuel : Nat) → (steps : List Step) → (current : Step) → σ → Option (Except WalkError Trace × σ)
  | 0, _, _, _ => none
  | fuel + 1, steps, current, log =>
    if current ∈ steps then some (.error (.cycle current (steps ++ [current])), log)
    else
      match options.limits.reached steps.length with
      | some maxSteps => some (.error (.tooLong maxSteps steps), log)
      | none =>
        let steps := steps ++ [current]
        match poll options.limits options.now current.id log with
        | (.error cause, log) => some (.error (.log cause), log)
        | (.ok .notFound, log) => some (.error (.notFound current.id steps), log)
        | (.ok .timedOut, log) =>
          if options.optimistic then some (.ok ⟨steps, .incomplete current.id⟩, log)
          else some (.error (.timedOut current.id options.limits.timeout steps), log)
        | (.ok (.found record), log) =>
          match options.rules.apply record current.charIndex with
          | none => some (.ok ⟨steps, .unsupported record.kind "no rule registered"⟩, log)
          | some (.terminal reason) => some (.ok ⟨steps, reason.toEnd record.kind⟩, log)
          | some (.next step) => walkFrom options fuel steps step log

/-- Walks back from a character to where it came from, by rules that make no index larger. -/
def walk (options : WalkOptions) (start : Step) (log : σ) : Except WalkError Trace × σ :=
  let fuel := RecordLog.size log * (start.charIndex + 1) + 2
  (walkFrom options fuel [] start log).getD (.error (.cycle start []), log)

/-- Waits for a record. -/
def await (options : WalkOptions) (id : RecordId) (log : σ) : Except WalkError Record × σ :=
  match poll options.limits options.now id log with
  | (.error cause, log) => (.error (.log cause), log)
  | (.ok (.found record), log) => (.ok record, log)
  | (.ok .notFound, log) => (.error (.notFound id []), log)
  | (.ok .timedOut, log) => (.error (.timedOut id options.limits.timeout []), log)

end Provenance
