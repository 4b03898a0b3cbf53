import Provenance.Log.Memory
import Provenance.Proofs.Record.Acceptance
import Provenance.Record.Draft

/-! # Batches taken in two parts

A batch can be appended in one piece, or its front first and then its back. What the back says of
drafts in the front has to be said anew, since they are records by then: it is rebased. A rebased
reference is older exactly if the reference was, and names the same record. So both ways accept
the same batches, give the same identifiers and leave the same log.
-/

namespace Provenance

namespace DraftReference

/-- The same reference in a batch that begins `moved` drafts later: what names one of those drafts
    names the record that it became. -/
def rebase (first : RecordId) (moved : Nat) : DraftReference → DraftReference
  | stored id => .stored id
  | inBatch index =>
      if index < moved then .stored (first.offset index) else .inBatch (index - moved)

variable {first : RecordId} {moved place : Nat}

theorem target_rebase (first : RecordId) (moved : Nat) (reference : DraftReference) :
    (reference.rebase first moved).target (first.offset moved) = reference.target first := by
  cases reference with
  | stored id => rfl
  | inBatch index =>
      by_cases hbefore : index < moved
      · simp [rebase, hbefore, target]
      · have hback : moved + (index - moved) = index := by omega
        simp [rebase, hbefore, target, RecordId.offset_add, hback]

theorem older_rebase_iff (hroom : first.toNat + moved < UInt64.size) (reference : DraftReference) :
    (reference.rebase first moved).Older (first.offset moved) place ↔
      reference.Older first (moved + place) := by
  have hstart : (first.offset moved).toNat = first.toNat + moved := by
    rw [RecordId.toNat_offset, Nat.mod_eq_of_lt hroom]
  cases reference with
  | stored id => simp [rebase, Older, hstart, Nat.add_assoc]
  | inBatch index =>
      by_cases hbefore : index < moved
      · have hnamed : (first.offset index).toNat = first.toNat + index := by
          rw [RecordId.toNat_offset, Nat.mod_eq_of_lt (by omega)]
        simp only [rebase, hbefore, if_true, Older, hnamed, hstart]
        omega
      · simp only [rebase, hbefore, if_false, Older]
        omega

end DraftReference

namespace Operands

variable {ρ σ τ : Type}

theorem track_track (operands : Operands ρ) (f : ρ → σ) (g : σ → τ) :
    (operands.track f).track g = operands.track fun reference => g (f reference) := by
  simp [track, trackEntry, Function.comp_def]

theorem references_track (operands : Operands ρ) (f : ρ → σ) :
    (operands.track f).references = operands.references.map f := by
  simp [references, track, trackEntry, List.filterMap_map, List.map_filterMap, Function.comp_def]

end Operands

namespace Operation

/-- The draft with all its references rebased. -/
def rebase (first : RecordId) (moved : Nat) (draft : Draft) : Draft :=
  { draft with
    args := draft.args.track (·.rebase first moved)
    extraArgs := draft.extraArgs.track (·.rebase first moved)
    runtimeArgs := draft.runtimeArgs.track (·.rebase first moved) }

theorem references_rebase (first : RecordId) (moved : Nat) (draft : Draft) :
    (draft.rebase first moved).references = draft.references.map (·.rebase first moved) := by
  simp [references, rebase, Operands.references_track]

/-- A rebased draft becomes the record that the draft would have become. -/
theorem numbered_rebase (first : RecordId) (moved place : Nat) (draft : Draft) :
    (draft.rebase first moved).numbered (first.offset moved) place =
      draft.numbered first (moved + place) := by
  simp only [numbered, rebase, Operands.track_track, DraftReference.target_rebase,
    RecordId.offset_add]

end Operation

section Batch

variable {first : RecordId} {front back : List Draft} {records : List Record}

theorem numberedBatch_append (first : RecordId) (front back : List Draft) :
    numberedBatch first 0 (front ++ back) = numberedBatch first 0 front ++
      numberedBatch (first.offset front.length) 0
        (back.map (Operation.rebase first front.length)) := by
  have hrebased : numberedBatch first front.length back =
      numberedBatch (first.offset front.length) 0
        (back.map (Operation.rebase first front.length)) := by
    apply List.ext_getElem?
    intro i
    cases hhere : back[i]? <;> simp [numberedBatch, hhere, Operation.numbered_rebase]
  rw [← hrebased]
  simp [numberedBatch, List.zipIdx_append]

theorem acceptable_append_iff (hroom : first.toNat + front.length < UInt64.size) :
    Acceptable first (front ++ back) ↔ Acceptable first front ∧
      Acceptable (first.offset front.length) (back.map (Operation.rebase first front.length)) := by
  constructor
  · intro hacceptable
    refine ⟨fun place draft hthere => ?_, fun place draft hthere reference hmakes => ?_⟩
    · apply hacceptable place draft
      rw [List.getElem?_append_left (List.getElem?_eq_some_iff.mp hthere).1, hthere]
    · rw [List.getElem?_map, Option.map_eq_some_iff] at hthere
      obtain ⟨draft, hthere, rfl⟩ := hthere
      rw [Operation.references_rebase] at hmakes
      obtain ⟨source, hnamed, rfl⟩ := List.mem_map.mp hmakes
      rw [DraftReference.older_rebase_iff hroom]
      refine hacceptable _ draft ?_ source hnamed
      rw [List.getElem?_append_right (Nat.le_add_right _ _), Nat.add_sub_cancel_left, hthere]
  · rintro ⟨hbefore, hafter⟩ place draft hthere reference hmakes
    by_cases hinFront : place < front.length
    · rw [List.getElem?_append_left hinFront] at hthere
      exact hbefore place draft hthere reference hmakes
    · obtain ⟨i, rfl⟩ := Nat.exists_eq_add_of_le (Nat.le_of_not_lt hinFront)
      rw [List.getElem?_append_right (Nat.le_add_right _ _), Nat.add_sub_cancel_left] at hthere
      rw [← DraftReference.older_rebase_iff hroom]
      refine hafter i _ (by rw [List.getElem?_map, hthere, Option.map_some]) _ ?_
      rw [Operation.references_rebase]
      exact List.mem_map_of_mem hmakes

/-- A batch is resolved in one piece exactly if its two parts are, one after the other. -/
theorem resolveBatch_append_iff
    (hroom : first.toNat + (front ++ back).length < UInt64.size) :
    resolveBatch first (front ++ back) = .ok records ↔
      ∃ before after, resolveBatch first front = .ok before ∧
        resolveBatch (first.offset front.length)
          (back.map (Operation.rebase first front.length)) = .ok after ∧
        records = before ++ after := by
  rw [List.length_append] at hroom
  have hspace : (first.offset front.length).toNat +
      (back.map (Operation.rebase first front.length)).length < UInt64.size := by
    rw [RecordId.toNat_offset, Nat.mod_eq_of_lt (by omega), List.length_map]
    omega
  rw [resolveBatch_ok_iff (by rwa [List.length_append]), acceptable_append_iff (by omega),
    numberedBatch_append]
  constructor
  · rintro ⟨⟨hbefore, hafter⟩, rfl⟩
    exact ⟨_, _, (resolveBatch_ok_iff (by omega)).mpr ⟨hbefore, rfl⟩,
      (resolveBatch_ok_iff hspace).mpr ⟨hafter, rfl⟩, rfl⟩
  · rintro ⟨before, after, hresolved, hrested, rfl⟩
    obtain ⟨hfront, rfl⟩ := (resolveBatch_ok_iff (by omega)).mp hresolved
    obtain ⟨hback, rfl⟩ := (resolveBatch_ok_iff hspace).mp hrested
    exact ⟨⟨hfront, hback⟩, rfl⟩

end Batch

theorem nextAfter_append (id : RecordId) (records others : List Record) :
    nextAfter id (records ++ others) = nextAfter (nextAfter id records) others := by
  unfold nextAfter
  rw [List.getLast?_append]
  cases others.getLast? <;> rfl

theorem lastOf_append (id : RecordId) (records others : List Record) :
    lastOf id (records ++ others) = lastOf (lastOf id records) others := by
  unfold lastOf
  rw [List.getLast?_append]
  cases others.getLast? <;> rfl

namespace MemoryLog

variable {log later : MemoryLog} {front back : List Draft} {ids : List RecordId}

theorem append_eq_of_resolveBatch {batch : List Draft} {records : List Record}
    (hresolved : resolveBatch log.nextId batch = .ok records) :
    log.append batch = (.ok (records.map (·.id)), {
      records := log.records ++ records
      byLocation := records.foldl index log.byLocation
      nextId := nextAfter log.nextId records
      allocated := lastOf log.allocated records }) := by
  unfold append
  rw [hresolved]

theorem exists_of_append_eq_ok {batch : List Draft}
    (haccepted : log.append batch = (.ok ids, later)) :
    ∃ records, resolveBatch log.nextId batch = .ok records := by
  cases hresolved : resolveBatch log.nextId batch with
  | ok records => exact ⟨records, rfl⟩
  | error cause =>
      unfold append at haccepted
      rw [hresolved] at haccepted
      cases haccepted

/-- A batch that is accepted in one piece is accepted in two, with the same identifiers in the same
    order; records, index, next identifier and mark are the same in the end. -/
theorem append_in_two (hroom : log.nextId.toNat + (front ++ back).length < UInt64.size)
    (haccepted : log.append (front ++ back) = (.ok ids, later)) :
    ∃ before after middle, log.append front = (.ok before, middle) ∧
      middle.append (back.map (Operation.rebase log.nextId front.length)) = (.ok after, later) ∧
      before ++ after = ids := by
  obtain ⟨records, hwhole⟩ := exists_of_append_eq_ok haccepted
  obtain ⟨before, after, hfirst, hsecond, rfl⟩ := (resolveBatch_append_iff hroom).mp hwhole
  rw [append_eq_of_resolveBatch hwhole] at haccepted
  cases haccepted
  refine ⟨_, after.map (·.id), _, append_eq_of_resolveBatch hfirst, ?_, List.map_append.symm⟩
  rw [← nextAfter_of_resolveBatch hfirst] at hsecond
  rw [append_eq_of_resolveBatch hsecond, List.append_assoc, List.foldl_append, nextAfter_append,
    lastOf_append]

/-- The back refers to a record, to the front and to itself; each reference is rebased in its own
    way. -/
theorem append_in_two_located :
    let log := (MemoryLog.append [Draft.stringLiteral "a"] {}).2
    let front := [Draft.stringLiteral "b"]
    let sum (tracking : DraftReference) := Draft.concat ⟨.str "a", some (.stored ⟨1⟩)⟩
      ⟨.str "b", some tracking⟩
    let place : SourceLocation := ⟨"app.js", ⟨1, 0⟩, ⟨1, 9⟩⟩
    let name (tracking : DraftReference) : Draft :=
      { kind := .identifier, staticArgs := { location := some place }
        args := Operands.empty.insert "value" ⟨.str "ab", some tracking⟩, result := .str "ab" }
    let back := [sum (.inBatch 0), name (.inBatch 1)]
    let whole := log.append (front ++ back)
    log.nextId.toNat + (front ++ back).length < UInt64.size ∧ whole.1 = .ok [⟨2⟩, ⟨3⟩, ⟨4⟩] ∧
      (log.append front).1 = .ok [⟨2⟩] ∧
      (log.append front).2.append [sum (.stored ⟨2⟩), name (.inBatch 0)] =
        (.ok [⟨3⟩, ⟨4⟩], whole.2) := by
  intro log front sum place name back whole
  have hroom : log.nextId.toNat + (front ++ back).length < UInt64.size := by decide
  have haccepted : log.append (front ++ back) = (.ok [⟨2⟩, ⟨3⟩, ⟨4⟩], whole.2) := rfl
  obtain ⟨before, after, middle, hfirst, hsecond, hids⟩ := append_in_two hroom haccepted
  obtain rfl : before = [⟨2⟩] := Except.ok.inj (congrArg Prod.fst hfirst).symm
  obtain rfl : after = [⟨3⟩, ⟨4⟩] := List.cons.inj hids |>.2
  obtain rfl : (log.append front).2 = middle := congrArg Prod.snd hfirst
  exact ⟨hroom, rfl, congrArg Prod.fst hfirst, hsecond⟩

end MemoryLog

end Provenance
