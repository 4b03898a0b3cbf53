import Provenance.Log.Memory
import Provenance.Log.Buffered
import Provenance.Trace.Walk

/-! # Waiting for a record

A reader that waits for a record sleeps between its look-ups, for the interval or for what is left
of the time. All that the answers have in common with each other decides what the wait comes to: it
is over with the first answer that is not a delay, and in vain if the last one still is. Where
nobody else uses the log, the look-ups in between make no difference: it would be enough to look
again when the time is over.
-/

namespace Provenance

variable {σ τ : Type} [RecordLog σ] [RecordLog τ]

theorem eq_found_of_settle {answer : Except LogError Fetch} {record : Record}
    (hfound : settle answer = .ok (.found record)) : answer = .ok (.found record) := by
  match answer with
  | .ok (.found _) =>
      cases hfound
      rfl
  | .error _ | .ok .notFound | .ok .notYetAvailable => cases hfound

theorem WalkLimits.sleep_pos (limits : WalkLimits) (left : Nat) : 0 < limits.sleep left :=
  Nat.lt_of_lt_of_le Nat.one_pos (Nat.le_max_left _ _)

theorem WalkLimits.sleep_le (limits : WalkLimits) {left : Nat} (hsome : 0 < left) :
    limits.sleep left ≤ left :=
  Nat.max_le.mpr ⟨hsome, Nat.min_le_right _ _⟩

section Steps

variable {limits : WalkLimits} {deadline sleeps now : Nat} {id : RecordId} {log later : σ}
  {answer : Except LogError Fetch}

theorem pollUntil_of_answer (hfetched : RecordLog.fetch id now log = (answer, later))
    (hready : answer ≠ .ok .notYetAvailable) :
    pollUntil limits deadline id sleeps now log = (settle answer, later) := by
  cases sleeps with
  | zero => rw [pollUntil, hfetched]
  | succ sleeps =>
      rw [pollUntil, hfetched]
      match answer with
      | .error cause | .ok (.found record) | .ok .notFound => rfl
      | .ok .notYetAvailable => exact absurd rfl hready

theorem pollUntil_of_expired (hexpired : deadline ≤ now) :
    pollUntil limits deadline id sleeps now log =
      (settle (RecordLog.fetch id now log).1, (RecordLog.fetch id now log).2) := by
  cases sleeps with
  | zero => rfl
  | succ sleeps =>
      rw [pollUntil]
      split
      · rename_i hwaits
        rw [if_pos hexpired, hwaits]
        rfl
      · rename_i hfetched
        rw [hfetched]

theorem pollUntil_of_waits (hfetched : RecordLog.fetch id now log = (.ok .notYetAvailable, later))
    (hearly : now < deadline) :
    pollUntil limits deadline id (sleeps + 1) now log =
      pollUntil limits deadline id sleeps (now + limits.sleep (deadline - now)) later := by
  rw [pollUntil, hfetched]
  exact if_neg (Nat.not_le_of_lt hearly)

theorem poll_of_answer (hfetched : RecordLog.fetch id now log = (answer, later))
    (hready : answer ≠ .ok .notYetAvailable) :
    poll limits now id log = (settle answer, later) :=
  pollUntil_of_answer hfetched hready

/-- The bound on the sleeps is never what ends the wait. -/
theorem pollUntil_add_sleeps (henough : deadline ≤ now + sleeps) (more : Nat) :
    pollUntil limits deadline id (sleeps + more) now log =
      pollUntil limits deadline id sleeps now log := by
  induction sleeps generalizing now log with
  | zero =>
      have hexpired : deadline ≤ now := henough
      rw [pollUntil_of_expired hexpired, pollUntil_of_expired hexpired]
  | succ sleeps ih =>
      by_cases hexpired : deadline ≤ now
      · rw [pollUntil_of_expired hexpired, pollUntil_of_expired hexpired]
      have hearly := Nat.lt_of_not_le hexpired
      cases hfetched : RecordLog.fetch id now log with
      | mk answer later =>
          by_cases hwaits : answer = .ok .notYetAvailable
          · have hslept := limits.sleep_pos (deadline - now)
            rw [hwaits] at hfetched
            rw [Nat.add_right_comm, pollUntil_of_waits hfetched hearly,
              pollUntil_of_waits hfetched hearly]
            exact ih (by omega)
          · rw [pollUntil_of_answer hfetched hwaits, pollUntil_of_answer hfetched hwaits]

end Steps

section Keeps

variable {P : σ → Prop} (hkeeps : ∀ id now log, P log → P (RecordLog.fetch id now log).2)

include hkeeps

theorem pollUntil_keeps (limits : WalkLimits) (deadline : Nat) (id : RecordId) (sleeps now : Nat)
    (log : σ) (hholds : P log) : P (pollUntil limits deadline id sleeps now log).2 := by
  induction sleeps generalizing now log with
  | zero => exact hkeeps id now log hholds
  | succ sleeps ih =>
      have hfirst := hkeeps id now log hholds
      rw [pollUntil]
      split <;> rename_i hfetched <;> rw [hfetched] at hfirst
      · split
        · exact hfirst
        · exact ih _ _ hfirst
      · exact hfirst

/-- What every look-up keeps, waiting keeps. -/
theorem poll_keeps (limits : WalkLimits) (now : Nat) (id : RecordId) (log : σ) (hholds : P log) :
    P (poll limits now id log).2 :=
  pollUntil_keeps hkeeps limits _ id _ now log hholds

end Keeps

section Map

variable {f : σ → τ} (hsame : ∀ id now log, RecordLog.fetch id now (f log) =
    ((RecordLog.fetch id now log).1, f (RecordLog.fetch id now log).2))

include hsame

theorem pollUntil_map (limits : WalkLimits) (deadline : Nat) (id : RecordId) (sleeps now : Nat)
    (log : σ) : pollUntil limits deadline id sleeps now (f log) =
      ((pollUntil limits deadline id sleeps now log).1,
        f (pollUntil limits deadline id sleeps now log).2) := by
  induction sleeps generalizing now log with
  | zero =>
      rw [pollUntil, hsame]
      rfl
  | succ sleeps ih =>
      have hmapped := hsame id now log
      cases hfetched : RecordLog.fetch id now log with
      | mk answer later =>
          rw [hfetched] at hmapped
          by_cases hwaits : answer = .ok .notYetAvailable
          · cases hwaits
            obtain hearly | hexpired := Nat.lt_or_ge now deadline
            · rw [pollUntil_of_waits hfetched hearly, pollUntil_of_waits hmapped hearly, ih]
            · rw [pollUntil_of_expired hexpired, pollUntil_of_expired hexpired, hsame]
          · rw [pollUntil_of_answer hfetched hwaits, pollUntil_of_answer hmapped hwaits]

/-- A log that only carries more with it than another is waited for alike. -/
theorem poll_map (limits : WalkLimits) (now : Nat) (id : RecordId) (log : σ) :
    poll limits now id (f log) = ((poll limits now id log).1, f (poll limits now id log).2) :=
  pollUntil_map hsame limits _ id _ now log

end Map

/-! ## Logs that answer by themselves -/

/-- A log that never fails and stays as it is: `answers` says what it has for each identifier. -/
def Steady (answers : RecordId → Fetch) (log : σ) : Prop :=
  ∀ id now, RecordLog.fetch id now log = (.ok (answers id), log)

theorem FixedLog.steady (log : FixedLog) : Steady log.fetch log := fun _ _ => rfl

theorem MemoryLog.steady (log : MemoryLog) : Steady log.fetch log := fun _ _ => rfl

section Lasting

variable {limits : WalkLimits} {id : RecordId} {log : σ} {now deadline sleeps : Nat}

/-- If look-ups in vain change nothing, and the first other answer is the one that is given at the
    deadline as well, only the look-up at the deadline counts. -/
theorem pollUntil_of_lasting
    (hwaits : ∀ time, (RecordLog.fetch id time log).1 = .ok .notYetAvailable →
      (RecordLog.fetch id time log).2 = log)
    (hlasts : ∀ time ≤ deadline, (RecordLog.fetch id time log).1 ≠ .ok .notYetAvailable →
      RecordLog.fetch id deadline log = RecordLog.fetch id time log)
    (hahead : now ≤ deadline) (henough : deadline ≤ now + sleeps) :
    pollUntil limits deadline id sleeps now log =
      (settle (RecordLog.fetch id deadline log).1, (RecordLog.fetch id deadline log).2) := by
  induction sleeps generalizing now with
  | zero =>
      obtain rfl : now = deadline := Nat.le_antisymm hahead henough
      rfl
  | succ sleeps ih =>
      by_cases hvain : (RecordLog.fetch id now log).1 = .ok .notYetAvailable
      · have hfetched : RecordLog.fetch id now log = (.ok .notYetAvailable, log) :=
          Prod.ext hvain (hwaits now hvain)
        obtain rfl | hearly := Nat.eq_or_lt_of_le hahead
        · exact pollUntil_of_expired (Nat.le_refl _)
        · have hslept := limits.sleep_pos (deadline - now)
          have hinside := limits.sleep_le (Nat.sub_pos_of_lt hearly)
          rw [pollUntil_of_waits hfetched hearly]
          exact ih (by omega) (by omega)
      · rw [hlasts now hahead hvain]
        exact pollUntil_of_answer rfl hvain

theorem Steady.poll {answers : RecordId → Fetch} (hsteady : Steady answers log)
    (limits : WalkLimits) (now : Nat) (id : RecordId) :
    poll limits now id log = (settle (.ok (answers id)), log) := by
  have honly : Provenance.poll limits now id log =
      (settle (RecordLog.fetch id (now + limits.timeout) log).1,
        (RecordLog.fetch id (now + limits.timeout) log).2) :=
    pollUntil_of_lasting (fun time _ => congrArg Prod.snd (hsteady id time))
      (fun time _ _ => (hsteady id _).trans (hsteady id time).symm) (Nat.le_add_right _ _)
      (Nat.le_refl _)
  rwa [hsteady id] at honly

end Lasting

/-! ## Logs over a table -/

namespace BufferedLog

variable {log : BufferedLog} {id : RecordId} {now time : Nat}

theorem flush_eq_or_empty (log : BufferedLog) (failure : Option LogError) :
    (log.flush failure).2 = log ∨ (log.flush failure).2.buffer = [] := by
  unfold flush
  split
  · exact .inl rfl
  · split
    · exact .inl rfl
    · split
      · exact .inr rfl
      · exact .inl rfl

theorem isDue_of_le (hle : now ≤ time) (hdue : log.isDue now) : log.isDue time := by
  unfold isDue at hdue ⊢
  rw [Bool.or_eq_true, decide_eq_true_iff] at hdue ⊢
  refine hdue.imp_right fun hhold => ?_
  split at hhold
  · exact hhold
  · rw [decide_eq_true_iff] at hhold ⊢
    omega

theorem lookUp_of_empty_ne (hempty : log.buffer = []) : log.lookUp id ≠ .ok .notYetAvailable := by
  unfold lookUp
  rw [hempty, List.any_nil, if_neg Bool.false_ne_true]
  split
  · exact nofun
  · split <;> exact nofun

theorem fetch_of_waits (hwaits : (log.fetch id now).1 = .ok .notYetAvailable) :
    (log.fetch id now).2 = log := by
  change (log.flushIfDue now).2 = log
  change (log.flushIfDue now).2.lookUp id = _ at hwaits
  unfold flushIfDue at hwaits ⊢
  split at hwaits
  · rename_i hdue
    rw [if_pos hdue]
    exact (log.flush_eq_or_empty none).resolve_right fun hempty => lookUp_of_empty_ne hempty hwaits
  · rename_i hrest
    rw [if_neg hrest]

/-- Once the record of an identifier that has waited is there, the buffer has been written, and no
    later look-up changes anything. -/
theorem fetch_of_le (hwaited : log.lookUp id = .ok .notYetAvailable) (hle : now ≤ time)
    (hthere : (log.fetch id now).1 ≠ .ok .notYetAvailable) :
    log.fetch id time = log.fetch id now := by
  have hdue : log.isDue now := by
    refine Decidable.byContradiction fun hrest => hthere ?_
    change (log.flushIfDue now).2.lookUp id = _
    rwa [flushIfDue, if_neg hrest]
  change ((log.flushIfDue time).2.lookUp id, (log.flushIfDue time).2) =
    ((log.flushIfDue now).2.lookUp id, (log.flushIfDue now).2)
  rw [flushIfDue, flushIfDue, if_pos hdue, if_pos (isDue_of_le hle hdue)]

/-- Waiting for a record in a log that nobody else uses comes to looking it up once, and if it is
    not available a second time when the time is over. -/
theorem poll_eq_two_lookups (limits : WalkLimits) (now : Nat) (id : RecordId) (log : BufferedLog) :
    poll limits now id log =
      match log.fetch id now with
      | (.ok .notYetAvailable, later) =>
        (settle (later.fetch id (now + limits.timeout)).1,
          (later.fetch id (now + limits.timeout)).2)
      | (answer, later) => (settle answer, later) := by
  split
  · rename_i later hfetched
    have hwaits : (log.fetch id now).1 = .ok .notYetAvailable := congrArg Prod.fst hfetched
    obtain rfl : log = later := (fetch_of_waits hwaits).symm.trans (congrArg Prod.snd hfetched)
    have hwaited : log.lookUp id = .ok .notYetAvailable := by
      change (log.fetch id now).2.lookUp id = _ at hwaits
      rwa [hfetched] at hwaits
    exact pollUntil_of_lasting (fun time hvain => fetch_of_waits hvain)
      (fun time hle hthere => fetch_of_le hwaited hle hthere) (Nat.le_add_right _ _) (Nat.le_refl _)
  · rename_i answer later hother hfetched
    exact poll_of_answer hfetched hother

end BufferedLog

end Provenance
