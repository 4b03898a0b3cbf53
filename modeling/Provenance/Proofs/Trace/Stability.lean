import Provenance.Proofs.Trace.Waiting

/-! # Walks that are asked for again

A walk depends on nothing but the records that it looks up. Whatever happens to a log afterwards,
these are found again, so the same walk comes to the same end. Only a walk that gave up waiting may
get further another time.
-/

namespace Provenance

variable {options : WalkOptions} {start : Step} {trace : Trace}

theorem Comes.alone {log later : BufferedLog} {result : Except WalkError Trace} :
    Comes options start (Shared.mk log []) result (Shared.mk later []) ↔
      Comes options start log result later := by
  refine exists_congr fun fuel => ?_
  rw [Shared.walkFrom_alone, Option.map_eq_some_iff]
  constructor
  · rintro ⟨⟨result, later⟩, hcomes, hsame⟩
    cases hsame
    exact hcomes
  · exact fun hcomes => ⟨_, hcomes, rfl⟩

theorem Comes.exists_alone {log : BufferedLog} {result : Except WalkError Trace} {later : Shared}
    (hcomes : Comes options start (Shared.mk log []) result later) :
    ∃ last, Comes options start log result last := by
  obtain ⟨fuel, hcomes⟩ := hcomes
  rw [Shared.walkFrom_alone] at hcomes
  obtain ⟨⟨_, last⟩, halone, hsame⟩ := Option.map_eq_some_iff.mp hcomes
  cases hsame
  exact ⟨last, fuel, halone⟩

/-- Neither time nor further records make a difference to a walk over a log in memory. -/
theorem MemoryLog.Run.comes_again {log after later : MemoryLog} {more : List RecordId}
    (hfinished : ∀ id, trace.ending ≠ .incomplete id)
    (hcomes : Comes options start log (.ok trace) after) (hrun : MemoryLog.Run after more later)
    (now : Nat) : ∃ last, Comes { options with now } start later (.ok trace) last := by
  obtain ⟨fuel, hcomes⟩ := hcomes
  have hstill : after = log := walkFrom_keeps (P := (· = log)) (fun _ _ _ hsame => hsame) hcomes rfl
  suffices hagain : ∃ last,
      walkFrom { options with now } fuel [] start later = some (.ok trace, last) from
    hagain.imp fun last hagain => ⟨fuel, hagain⟩
  refine walkFrom_again (R := fun one other => one = log ∧ other = later) ?_ ⟨rfl, rfl⟩ hfinished
    hcomes
  · rintro id record _ _ ⟨rfl, rfl⟩ hfound -
    rw [(MemoryLog.steady _).poll] at hfound ⊢
    have hthere := MemoryLog.find_of_fetch (Except.ok.inj (eq_found_of_settle hfound))
    rw [(MemoryLog.steady _).poll, MemoryLog.fetch_eq_found (hrun.find_lasts (hstill ▸ hthere))]
    exact ⟨rfl, rfl, rfl⟩

namespace Together

variable {memory grown : MemoryLog} {shared final other : Shared}

theorem later_consulted (htogether : Together memory shared.log)
    (hroom : memory.records.length < RecordId.bound) (hconsulted : Consulted shared final) :
    Later memory shared.log final.log := by
  induction hconsulted with
  | refl => exact .refl htogether
  | fetch _ id now hbefore => exact hbefore.trans (hbefore.together.later_fetch hroom id now)

/-- A walk ends as it did before over any log that has all the records that do not wait when the
walk is over. -/
theorem comes_again (htogether : Together memory shared.log)
    (hroom : memory.records.length < RecordId.bound)
    (hstorable : ∀ record ∈ memory.records, record.Storable) (htogether' : Together grown other.log)
    (hroom' : grown.records.length < RecordId.bound)
    (hstorable' : ∀ record ∈ grown.records, record.Storable)
    (hlasts : ∀ id record, memory.fetch id = .found record → ¬ final.log.Waits id →
      grown.fetch id = .found record ∧ ¬ other.log.Waits id)
    (hfinished : ∀ id, trace.ending ≠ .incomplete id)
    (hcomes : Comes options start shared (.ok trace) final) (now : Nat) :
    ∃ last, Comes { options with now } start other (.ok trace) last := by
  obtain ⟨fuel, hcomes⟩ := hcomes
  let R (one before : Shared) : Prop :=
    Together memory one.log ∧ Later grown other.log before.log
  suffices hagain : ∃ last,
      walkFrom { options with now } fuel [] start other = some (.ok trace, last) from
    hagain.imp fun last hagain => ⟨fuel, hagain⟩
  refine walkFrom_again (R := R) ?_ ⟨htogether, .refl htogether'⟩ hfinished hcomes
  · rintro id record one before ⟨htogether, hlater⟩ hfound hconsulted
    obtain ⟨hstored, hthere⟩ := htogether.poll_eq_found hroom hstorable hfound
    have hpolled := (htogether.later_poll hroom options.limits options.now id).together
    have hgone : ¬ final.log.Waits id :=
      fun hwaits => hthere ((hpolled.later_consulted hroom hconsulted).waits id hwaits)
    obtain ⟨hstored', hthere'⟩ := hlasts id record hstored hgone
    have hfree : ¬ before.StaysWaiting id options.limits now :=
      fun hstays => hthere' (hlater.waits id (hlater.together.waits_of_stays hroom' hstays))
    obtain ⟨hsame, -⟩ := hlater.together.poll_of_not_stays hroom' hstorable' hfree
    rw [hsame, hlater.together.reached.poll_eq, hstored']
    exact ⟨rfl, hpolled, hlater.trans (hlater.together.later_poll hroom' options.limits now id)⟩

end Together

theorem Together.of_run {limits : BufferLimits} {ids : List RecordId} {issued : List Record}
    {log : BufferedLog} (hrun : BufferedLog.Run (.openOn {} limits) ids issued log)
    (hroom : issued.length < RecordId.bound) :
    ∃ memory, Together memory log ∧ memory.records = issued := by
  obtain ⟨memory, -, htogether, hall⟩ := (Together.start limits).exists_run hrun hroom
  exact ⟨memory, htogether, hall⟩

theorem BufferedLog.Run.comes_again {limits : BufferLimits} {ids more : List RecordId}
    {issued added : List Record} {log later : BufferedLog} {turns : List Turn} {after : Shared}
    (hrun : BufferedLog.Run (.openOn {} limits) ids issued log)
    (hfinished : ∀ id, trace.ending ≠ .incomplete id)
    (hcomes : Comes options start (Shared.mk log turns) (.ok trace) after)
    (hfurther : BufferedLog.Run after.log more added later)
    (hroom : (issued ++ added).length < RecordId.bound)
    (hstorable : ∀ record ∈ issued ++ added, record.Storable) (now : Nat) (turns' : List Turn) :
    ∃ last, Comes { options with now } start (Shared.mk later turns') (.ok trace) last := by
  have hbefore : issued.length < RecordId.bound :=
    Nat.lt_of_le_of_lt (List.length_append ▸ Nat.le_add_right _ _) hroom
  obtain ⟨memory, htogether, rfl⟩ := Together.of_run hrun hbefore
  have hshared : Together memory (Shared.mk log turns).log := htogether
  obtain ⟨fuel, hwalked⟩ := id hcomes
  have hafter' := (hshared.later_walkFrom hbefore hwalked).together
  obtain ⟨grown, hgrows, htogether', hall⟩ := hafter'.exists_run hfurther hroom
  have hother : Together grown (Shared.mk later turns').log := htogether'
  refine hshared.comes_again hbefore (List.forall_mem_append.mp hstorable).1 hother (hall ▸ hroom)
    (hall ▸ hstorable) (fun id record hfound hgone => ⟨?_, ?_⟩) hfinished hcomes now
  · exact MemoryLog.fetch_eq_found (hgrows.find_lasts (MemoryLog.find_of_fetch hfound))
  · exact hafter'.not_waits_of_run hfurther hroom hgone hfound

/-- A walk that has come to an end comes to the same end ever after, whatever its rules are, in
    memory and over a buffered log, which others may use as well and which may be closed and opened
    again. -/
theorem walk_again (options : WalkOptions) (start : Step) (trace : Trace)
    (hfinished : ∀ id, trace.ending ≠ .incomplete id) :
    (∀ log after : MemoryLog, Comes options start log (.ok trace) after →
      ∀ more later, MemoryLog.Run after more later →
        ∀ now, ∃ last, Comes { options with now } start later (.ok trace) last) ∧
    (∀ limits ids issued log, BufferedLog.Run (.openOn {} limits) ids issued log →
      ∀ after, Comes options start log (.ok trace) after →
      ∀ more added later, BufferedLog.Run after more added later →
        (issued ++ added).length < RecordId.bound → (∀ record ∈ issued ++ added, record.Storable) →
        ∀ now, ∃ last, Comes { options with now } start later (.ok trace) last) ∧
    (∀ limits ids issued log, BufferedLog.Run (.openOn {} limits) ids issued log →
      ∀ turns after, Comes options start (Shared.mk log turns) (.ok trace) after →
      ∀ more added later, BufferedLog.Run after.log more added later →
        (issued ++ added).length < RecordId.bound → (∀ record ∈ issued ++ added, record.Storable) →
        ∀ now turns, ∃ last,
          Comes { options with now } start (Shared.mk later turns) (.ok trace) last) := by
  refine ⟨?memory, ?buffered, ?shared⟩
  case memory =>
    intro log after hcomes more later hrun now
    exact hrun.comes_again hfinished hcomes now
  case buffered =>
    intro limits ids issued log hrun after hcomes more added later hfurther hroom hstorable now
    obtain ⟨last, hagain⟩ :=
      hrun.comes_again hfinished (Comes.alone.mpr hcomes) hfurther hroom hstorable now []
    exact hagain.exists_alone
  case shared =>
    intro limits ids issued log hrun turns after hcomes more added later hfurther hroom
      hstorable now turns'
    exact hrun.comes_again hfinished hcomes hfurther hroom hstorable now turns'

/-- A rule that goes from a call to a place further on in the first record. -/
def Rule.further : Rule := fun _ index => .next ⟨⟨1⟩, index + 7⟩

/-- A walk by such a rule that had to wait for its start, and the same after a batch that is
refused, another one, a write that fails, and closing and opening again. -/
theorem walk_again_reopened :
    let call : Draft := { kind := .callExpression, result := .str "tail" }
    let refused : Draft := Draft.concat ⟨.str "a", some (.inBatch 0)⟩ ⟨.str "b", none⟩
    let log := (BufferedLog.append [Draft.stringLiteral "the tail", call] 0 (.openOn {} {})).2
    let options : WalkOptions := { rules := RuleTable.standard.register .callExpression .further }
    let start : Step := ⟨⟨2⟩, 0⟩
    let trace : Trace := ⟨[start, ⟨⟨1⟩, 7⟩], .origin⟩
    let failing : Turn := { now := 400, failure := some .duplicateKey }
    let turns : List Turn := [failing, { now := 5000 }]
    ∃ after, Comes options start (Shared.mk log turns) (.ok trace) after ∧
      let extended :=
        ((after.log.append [refused] 6000).2.append [Draft.stringLiteral "b"] 6001).2
      let failed := (extended.flush (some .duplicateKey)).2
      failed.flush.1 = .ok failed.buffer.length ∧
        ∃ last, Comes { options with now := 7000 } start
          (Shared.mk (.openOn failed.close {}) [failing]) (.ok trace) last := by
  intro call refused log options start trace failing turns
  have hrun : BufferedLog.Run (.openOn {} {}) _ _ log := .append .start _ _ none
  have htogether : Together _ (Shared.mk log turns).log :=
    (Together.start {}).append [Draft.stringLiteral "the tail", call] 0 none
  have hwalks : (walkFrom options 2 [] start (Shared.mk log turns)).map Prod.fst =
      some (.ok trace) := by decide +kernel
  obtain ⟨⟨_, after⟩, hcomes, rfl⟩ := Option.map_eq_some_iff.mp hwalks
  have hagain := (walk_again options start trace (by simp [trace])).2.2 {} _ _ log hrun turns after
    ⟨2, hcomes⟩
  have hwalked : Together _ after.log := (htogether.later_walkFrom (by decide) hcomes).together
  refine ⟨after, ⟨2, hcomes⟩, ?_⟩
  intro extended failed
  have hrefusal := hwalked.append [refused] 6000 none
  have hclosing : Together _ failed :=
    (hrefusal.append [Draft.stringLiteral "b"] 6001 none).quiet (.flush (some .duplicateKey))
  obtain ⟨_, _, hholds, hall⟩ := hclosing.holds (by decide)
  have hwritten : failed.flush.1 = .ok failed.buffer.length :=
    hholds.flush_answer (hall ▸ by decide)
  have hfurther : BufferedLog.Run after.log _ _ (.openOn failed.close {}) :=
    (((BufferedLog.Run.start.append [refused] 6000 none).append [Draft.stringLiteral "b"] 6001
      none).quiet (.flush (some .duplicateKey))).quiet (.reopen {} hwritten)
  rw [hwalked.same_nextId (by decide), hrefusal.same_nextId (by decide)] at hfurther
  exact ⟨hwritten, hagain _ _ _ hfurther (by decide) (by decide) 7000 [failing]⟩

end Provenance
