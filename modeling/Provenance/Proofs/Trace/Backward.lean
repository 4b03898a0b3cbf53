import Provenance.Proofs.Log.Memory
import Provenance.Proofs.Trace.Cycles

/-! # Walks over ingested logs

What was ingested refers only to what was there before. So a walk over a log in memory goes
from every record to an older one: it cannot come back to a step, and the only identifier
without a record that it can reach is zero, which an accepted draft may name.
-/

namespace Provenance

theorem Operation.mem_references {op : Operation ρ} {operand : Operand ρ} {source : ρ}
    (hmem : operand ∈ op.operands) (htracked : operand.tracking = some source) :
    source ∈ op.references := by
  obtain ⟨entry, hlisted, rfl⟩ := List.mem_map.mp hmem
  obtain (harg | hextra) | hruntime := (List.mem_append.mp hlisted).imp_left List.mem_append.mp
  · exact List.mem_append_left _ (List.mem_append_left _
      (List.mem_filterMap.mpr ⟨entry, harg, htracked⟩))
  · exact List.mem_append_left _ (List.mem_append_right _
      (List.mem_filterMap.mpr ⟨entry, hextra, htracked⟩))
  · exact List.mem_append_right _ (List.mem_filterMap.mpr ⟨entry, hruntime, htracked⟩)

theorem Record.LooksBack.lt_of_apply {record : Record} (hbackward : record.LooksBack)
    {rules : RuleTable} (hprovided : rules.Provided) {index : Nat} {next : Step}
    (hleads : rules.apply record index = some (.next next)) : next.id < record.id := by
  obtain ⟨operand, hmem, htracked, -⟩ := RuleTable.apply_eq_next hprovided hleads
  exact hbackward next.id (Operation.mem_references hmem htracked)

namespace Chain

variable {chain : Chain} {step next : Step} {m n : Nat}

/-- All records that the chain may pass through look back, and are found under their own
    identifiers; the rules lead into nothing but their operands. -/
structure Backward (chain : Chain) : Prop where
  provided : chain.rules.Provided
  looksBack : ∀ id record, chain.find id = some record → record.id = id ∧ record.LooksBack

namespace Backward

theorem lt_of_after (hbackward : chain.Backward) (hleads : chain.after step = some next) :
    next.id < step.id := by
  obtain ⟨record, hfound, happlied⟩ := after_eq_some hleads
  obtain ⟨hnamed, hlooksBack⟩ := hbackward.looksBack step.id record hfound
  exact hnamed ▸ hlooksBack.lt_of_apply hbackward.provided happlied

/-- Every step takes at least one off the identifier. -/
theorem toNat_add_le (hbackward : chain.Backward) (hhere : chain.step? m = some step)
    (hthere : chain.step? (m + n) = some next) : next.id.toNat + n ≤ step.id.toNat := by
  induction n generalizing next with
  | zero =>
      obtain rfl := Option.some.inj (hhere.symm.trans hthere)
      exact Nat.le_refl _
  | succ n ih =>
      obtain ⟨earlier, hbefore, hleads⟩ := Option.bind_eq_some_iff.mp hthere
      have hless := RecordId.toNat_lt_iff.mp (hbackward.lt_of_after hleads)
      have := ih hbefore
      omega

theorem lt_of_lt (hbackward : chain.Backward) (hhere : chain.step? m = some step)
    (hthere : chain.step? n = some next) (hless : m < n) : next.id < step.id := by
  obtain ⟨k, rfl⟩ := Nat.exists_eq_add_of_le (Nat.le_of_lt hless)
  have := hbackward.toNat_add_le hhere hthere
  exact RecordId.toNat_lt_iff.mpr (by omega)

theorem not_returnsAt (hbackward : chain.Backward) : ¬ chain.ReturnsAt n := by
  rintro ⟨hhere, m, hless, hsame⟩
  obtain ⟨step, hthere⟩ := Option.isSome_iff_exists.mp hhere
  have := RecordId.toNat_lt_iff.mp (hbackward.lt_of_lt (hsame.trans hthere) hthere hless)
  omega

theorem pairwise_upTo (hbackward : chain.Backward) :
    (chain.upTo n).Pairwise fun earlier later => later.id < earlier.id := by
  refine List.pairwise_filterMap.mpr (List.pairwise_lt_range.imp ?_)
  intro m k hless step hhere next hthere
  exact hbackward.lt_of_lt hhere hthere hless

end Backward

end Chain

namespace MemoryLog

variable {log : MemoryLog}

theorem Reached.backward (hreached : log.Reached) (hroom : log.records.length + 1 < UInt64.size)
    {rules : RuleTable} (hprovided : rules.Provided) (start : Step) :
    (Chain.mk rules log.find start).Backward := by
  refine ⟨hprovided, fun id record hfound => ?_⟩
  obtain ⟨hmem, hnamed⟩ := mem_of_find hfound
  exact ⟨hnamed, hreached.looksBack hroom record hmem⟩

theorem Reached.eq_zero_of_absent (hreached : log.Reached) {id : RecordId}
    (hhold : id ≤ log.allocated) (habsent : log.find id = none) : id = ⟨0⟩ := by
  by_contra hgiven
  obtain ⟨record, hmem, hnamed⟩ := hreached.exists_record hgiven hhold
  exact List.find?_eq_none.mp habsent record hmem (by simpa using hnamed)

theorem toEnd_ne_incomplete (kind : Kind) (reason : Terminal) (id : RecordId) :
    reason.toEnd kind ≠ .incomplete id := by
  cases reason <;> exact nofun

/-- A walk over an ingested log comes to the identifier zero, which has no record, or to a record
    whose rule goes no further. -/
theorem Reached.walk_ends (hreached : log.Reached) (hroom : log.records.length + 1 < UInt64.size)
    {options : WalkOptions} (hprovided : options.rules.Provided)
    (hunlimited : options.limits.maxSteps = none) {start : Step}
    (hhold : start.id < log.nextId) :
    let chain : Chain := ⟨options.rules, log.find, start⟩
    ∃ n last, chain.step? n = some last ∧
      (last.id = ⟨0⟩ ∧
          walk options start log = (.error (.notFound ⟨0⟩ (chain.upTo (n + 1))), log) ∨
        ∃ reason, chain.ending last = some reason ∧
          walk options start log = (.ok ⟨chain.upTo (n + 1), reason⟩, log)) := by
  intro chain
  have hbackward : chain.Backward := hreached.backward hroom hprovided start
  obtain ⟨n, result, hwalks, hfate, -⟩ := hreached.walk_fate hprovided hunlimited start
  rw [hwalks]
  cases hfate with
  | returns _ hagain => exact absurd hagain hbackward.not_returnsAt
  | @absent last hhere habsent =>
      have hfew : last.id.toNat + n ≤ start.id.toNat :=
        hbackward.toNat_add_le (m := 0) rfl ((Nat.zero_add n).symm ▸ hhere)
      have holder : last.id ≤ log.allocated := by
        rw [hreached.lt_nextId_iff hroom, RecordId.toNat_le_iff] at hhold
        rw [RecordId.toNat_le_iff]
        omega
      have hzero : last.id = ⟨0⟩ := hreached.eq_zero_of_absent holder habsent
      exact ⟨n, last, hhere, .inl ⟨hzero, by rw [hzero]⟩⟩
  | @stops last reason hhere hends => exact ⟨n, last, hhere, .inr ⟨reason, hends, rfl⟩⟩

/-- From any record of an ingested log a walk by the provided rules goes strictly down, so it takes
    no more steps than there are older identifiers. It succeeds, with a complete trace or one that
    the rules do not follow further, unless it comes to the identifier zero, which is never given
    out. -/
theorem walk_descends (hreached : log.Reached) (hroom : log.records.length + 1 < UInt64.size)
    {options : WalkOptions} (hprovided : options.rules.Provided)
    (hunlimited : options.limits.maxSteps = none) {start : Step}
    (hhold : start.id < log.nextId) :
    let outcome := (walk options start log).1
    (stepsOf outcome).head? = some start ∧
    (stepsOf outcome).Pairwise (fun earlier later => later.id < earlier.id) ∧
    (stepsOf outcome).length ≤ start.id.toNat + 1 ∧
    ((∀ step ∈ stepsOf outcome, step.id ≠ ⟨0⟩) →
      ∃ trace, outcome = .ok trace ∧ ∀ id, trace.ending ≠ .incomplete id) ∧
    ∀ step ∈ stepsOf outcome, step.id = ⟨0⟩ →
      outcome = .error (.notFound ⟨0⟩ (stepsOf outcome)) := by
  intro outcome
  let chain : Chain := ⟨options.rules, log.find, start⟩
  have hbackward : chain.Backward := hreached.backward hroom hprovided start
  obtain ⟨n, last, hhere, hcomes⟩ := hreached.walk_ends hroom hprovided hunlimited hhold
  have hfew : last.id.toNat + n ≤ start.id.toNat :=
    hbackward.toNat_add_le (m := 0) rfl ((Nat.zero_add n).symm ▸ hhere)
  have htaken : (chain.upTo (n + 1)).length ≤ start.id.toNat + 1 := by
    rw [Chain.upTo_succ hhere, List.length_append, Chain.length_upTo hhere]
    exact Nat.succ_le_succ (by omega)
  obtain ⟨hzero, hwalks⟩ | ⟨reason, hends, hwalks⟩ := hcomes
  · have hfails : outcome = .error (.notFound ⟨0⟩ (chain.upTo (n + 1))) := congrArg Prod.fst hwalks
    rw [hfails]
    refine ⟨Chain.head?_upTo_succ, hbackward.pairwise_upTo, htaken, fun hnever => ?_,
      fun _ _ _ => rfl⟩
    exact absurd hzero (hnever last (Chain.mem_upTo.mpr ⟨n, Nat.lt_succ_self n, hhere⟩))
  · have hsucceeds : outcome = .ok ⟨chain.upTo (n + 1), reason⟩ := congrArg Prod.fst hwalks
    obtain ⟨record, hfound, hpast⟩ := Chain.ending_eq_some hends
    rw [hsucceeds]
    refine ⟨Chain.head?_upTo_succ, hbackward.pairwise_upTo, htaken,
      fun _ => ⟨_, rfl, fun id => ?_⟩, fun step hmem hzero => ?_⟩
    · obtain ⟨-, rfl⟩ | ⟨terminal, -, rfl⟩ := hpast
      · exact nofun
      · exact toEnd_ne_incomplete _ _ _
    · -- every step of a trace has a record, but zero has none
      obtain ⟨m, hless, hthere⟩ := Chain.mem_upTo.mp hmem
      obtain ⟨source, hnamed⟩ : ∃ source, log.find step.id = some source := by
        obtain hbefore | rfl := Nat.lt_succ_iff_lt_or_eq.mp hless
        · exact Chain.exists_find_of_lt hhere hbefore hthere
        · obtain rfl := Option.some.inj (hhere.symm.trans hthere)
          exact ⟨record, hfound⟩
      rw [hzero, hreached.find_zero hroom] at hnamed
      cases hnamed

/-- A name for something that no log has recorded, and a name for that name. -/
def renamed : List Draft :=
  [{ kind := .identifier
     args := Operands.empty.insert "value" ⟨.str "outside", some (.stored ⟨0⟩)⟩ },
   { kind := .identifier
     args := Operands.empty.insert "value" ⟨.str "outside", some (.inBatch 0)⟩ }]

/-- The log of these names alone. -/
def renamedLog : MemoryLog := (MemoryLog.append renamed {}).2

/-- From the second name the walk comes to the first one and to nothing. -/
theorem walk_descends_renamed :
    renamedLog.Reached ∧ renamedLog.records.length + 1 < UInt64.size ∧
    ({} : WalkOptions).rules.Provided ∧ ({} : WalkOptions).limits.maxSteps = none ∧
    ⟨2⟩ < renamedLog.nextId ∧
    (walk {} ⟨⟨2⟩, 6⟩ renamedLog).1 =
      .error (.notFound ⟨0⟩ [⟨⟨2⟩, 6⟩, ⟨⟨1⟩, 6⟩, ⟨⟨0⟩, 6⟩]) := by
  have hreached : renamedLog.Reached := .append .empty renamed
  have hroom : renamedLog.records.length + 1 < UInt64.size := by decide
  have hprovided : ({} : WalkOptions).rules.Provided := RuleTable.standard_provided
  have hunlimited : ({} : WalkOptions).limits.maxSteps = none := rfl
  have hhold : (Step.mk ⟨2⟩ 6).id < renamedLog.nextId := by decide
  have htaken : stepsOf (walk {} ⟨⟨2⟩, 6⟩ renamedLog).1 =
      [⟨⟨2⟩, 6⟩, ⟨⟨1⟩, 6⟩, ⟨⟨0⟩, 6⟩] := by decide
  obtain ⟨-, -, -, -, hfails⟩ := walk_descends hreached hroom hprovided hunlimited hhold
  refine ⟨hreached, hroom, hprovided, rfl, hhold, ?_⟩
  rw [htaken] at hfails
  exact hfails ⟨⟨0⟩, 6⟩ (by decide) rfl

end MemoryLog

end Provenance
