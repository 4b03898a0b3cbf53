import Provenance.Proofs.Record.Batch

/-! # Which batches are accepted

A batch is accepted if each of its references names something older than the draft that makes
it. The first one that does not is the reason for which the batch is refused; an accepted draft
becomes a record that differs from it only in what its operands track.
-/

namespace Provenance

/-- The result, unless something is refused. -/
def unlessRefused {ε α : Type} (refused : Option ε) (result : α) : Except ε α :=
  match refused with
  | some cause => .error cause
  | none => .ok result

section Refusals

variable {ε α β : Type} {refused other : Option ε} {a : α} {b : β}

/-- Of two steps that can be refused, the first refusal counts. -/
theorem bind_unlessRefused {f : α → Except ε β} (hnext : f a = unlessRefused other b) :
    unlessRefused refused a >>= f = unlessRefused (refused.or other) b := by
  cases refused with
  | some cause => rfl
  | none => exact hnext

theorem map_unlessRefused (f : α → β) :
    (unlessRefused refused a).map f = unlessRefused refused (f a) := by
  cases refused <;> rfl

theorem cases_of_map_eq {x : Except ε α} {f : α → β} (h : x.map f = unlessRefused refused b) :
    (∃ cause, refused = some cause ∧ x = .error cause) ∨
      ∃ a, refused = none ∧ x = .ok a ∧ f a = b := by
  cases refused with
  | some cause =>
      cases x with
      | error other => exact .inl ⟨cause, rfl, congrArg Except.error (Except.error.inj h)⟩
      | ok a => cases h
  | none =>
      cases x with
      | error other => cases h
      | ok a => exact .inr ⟨a, rfl, rfl, Except.ok.inj h⟩

end Refusals

namespace Operands

variable {ρ σ ε : Type}

/-- An operand with something else tracked. -/
def trackEntry (target : ρ → σ) (entry : String × Operand ρ) : String × Operand σ :=
  (entry.1, ⟨entry.2.value, entry.2.tracking.map target⟩)

/-- The operands with other things tracked; names, order and values stay. -/
def track (target : ρ → σ) (operands : Operands ρ) : Operands σ where
  entries := operands.entries.map (trackEntry target)
  distinct := by
    have hsame : Named.names (operands.entries.map (trackEntry target)) =
        operands.entries.names := by simp [Named.names, trackEntry]
    rw [hsame]
    exact operands.distinct

variable {resolve : ρ → Except ε σ} {refusal? : ρ → Option ε} {target : ρ → σ}
    (hresolves : ∀ reference,
      resolve reference = unlessRefused (refusal? reference) (target reference))

include hresolves

theorem resolveEntries_eq (entries : Named (Operand ρ)) :
    (resolveEntries resolve entries).map Subtype.val =
      unlessRefused ((entries.filterMap fun entry => entry.2.tracking).findSome? refusal?)
        (entries.map (trackEntry target)) := by
  induction entries with
  | nil => rfl
  | cons entry rest ih =>
      obtain ⟨name, value, tracking⟩ := entry
      have htracked : tracking.mapM resolve =
          unlessRefused (tracking.bind refusal?) (tracking.map target) := by
        cases tracking with
        | none => rfl
        | some reference =>
            rw [Option.mapM_some, hresolves]
            exact map_unlessRefused some
      have hfirst : (((name, ⟨value, tracking⟩) :: rest : Named (Operand ρ)).filterMap
            fun entry => entry.2.tracking).findSome? refusal? =
          (tracking.bind refusal?).or
            ((rest.filterMap fun entry => entry.2.tracking).findSome? refusal?) := by
        cases tracking with
        | none => rfl
        | some reference => cases hrefused : refusal? reference <;> simp [hrefused]
      rw [hfirst, resolveEntries, htracked]
      cases tracking.bind refusal? with
      | some cause => rfl
      | none =>
          obtain ⟨cause, hrefused, hfailed⟩ | ⟨others, hrefused, hresolved, hsame⟩ :=
            cases_of_map_eq ih
          · simp only [hfailed, hrefused, Option.none_or]
            rfl
          · simp only [hresolved, hrefused, Option.none_or]
            exact congrArg (fun rest => Except.ok (_ :: rest)) hsame

/-- Operands are resolved one by one, up to the first refusal. -/
theorem resolve_eq (operands : Operands ρ) :
    operands.resolve resolve =
      unlessRefused (operands.references.findSome? refusal?) (operands.track target) := by
  unfold Operands.resolve references track
  obtain ⟨cause, hrefused, hfailed⟩ | ⟨others, hrefused, hresolved, hsame⟩ :=
    cases_of_map_eq (resolveEntries_eq hresolves operands.entries)
  · simp only [hfailed, hrefused]
    rfl
  · obtain ⟨entries, hnames⟩ := others
    subst hsame
    simp only [hresolved, hrefused]
    rfl

end Operands

namespace DraftReference

/-- Whether a reference names something older than the draft that makes it, at a place of a batch
    whose first draft gets the identifier `first`. -/
def Older (first : RecordId) (place : Nat) : DraftReference → Prop
  | stored id => id.toNat < first.toNat + place
  | inBatch index => index < place

instance (first : RecordId) (place : Nat) :
    (reference : DraftReference) → Decidable (reference.Older first place)
  | stored id => inferInstanceAs (Decidable (id.toNat < first.toNat + place))
  | inBatch index => inferInstanceAs (Decidable (index < place))

/-- How a reference that names nothing older is refused. -/
def refusal (first : RecordId) (place : Nat) : DraftReference → ReferenceError
  | stored id => .forward (first.offset place) id
  | inBatch index => .batch place index

def refusal? (first : RecordId) (place : Nat) (reference : DraftReference) :
    Option ReferenceError :=
  if reference.Older first place then none else some (reference.refusal first place)

/-- The record that a reference names. -/
def target (first : RecordId) : DraftReference → RecordId
  | stored id => id
  | inBatch index => first.offset index

variable {first : RecordId} {place : Nat} {reference : DraftReference} {cause : ReferenceError}

theorem refusal?_eq_none_iff :
    reference.refusal? first place = none ↔ reference.Older first place := by
  unfold refusal?
  split <;> simp [*]

theorem refusal?_eq_some_iff : reference.refusal? first place = some cause ↔
    ¬ reference.Older first place ∧ cause = reference.refusal first place := by
  unfold refusal?
  split <;> simp [*, eq_comm]

theorem resolve_eq (hroom : first.toNat + place < UInt64.size) (reference : DraftReference) :
    reference.resolve (first.offset place) ((List.range place).map first.offset) =
      unlessRefused (reference.refusal? first place) (reference.target first) := by
  cases reference with
  | stored id =>
      have hsame : (first.offset place).toNat = first.toNat + place := by
        rw [RecordId.toNat_offset, Nat.mod_eq_of_lt hroom]
      have holder : ¬ first.offset place ≤ id ↔ id.toNat < first.toNat + place := by
        rw [RecordId.toNat_le_iff, hsame, Nat.not_le]
      simp only [resolve, refusal?, Older, ← holder]
      by_cases hle : first.offset place ≤ id <;> simp [hle, unlessRefused, refusal, target]
  | inBatch index =>
      by_cases hless : index < place
      · simp [resolve, refusal?, Older, hless, unlessRefused, target]
      · simp [resolve, refusal?, Older, hless, unlessRefused, refusal]

end DraftReference

/-- The record that a draft becomes at a place of its batch: the same operation under its own
    identifier, with records tracked. -/
def Operation.numbered (draft : Draft) (first : RecordId) (place : Nat) : Record :=
  { draft with
    id := first.offset place
    args := draft.args.track (·.target first)
    extraArgs := draft.extraArgs.track (·.target first)
    runtimeArgs := draft.runtimeArgs.track (·.target first) }

theorem Operation.resolve_eq {first : RecordId} {place : Nat}
    (hroom : first.toNat + place < UInt64.size) (draft : Draft) :
    draft.resolve (first.offset place) ((List.range place).map first.offset) =
      unlessRefused (draft.references.findSome? (·.refusal? first place))
        (draft.numbered first place) := by
  have hoperands := Operands.resolve_eq (DraftReference.resolve_eq hroom)
  unfold Operation.resolve references
  rw [List.findSome?_append, List.findSome?_append, Option.or_assoc, hoperands,
    hoperands, hoperands]
  refine bind_unlessRefused (bind_unlessRefused ?_)
  exact map_unlessRefused fun runtimeArgs => ({ draft with
    id := first.offset place
    args := draft.args.track (·.target first)
    extraArgs := draft.extraArgs.track (·.target first)
    runtimeArgs } : Record)

/-- The references of a batch in order, each with the place of the draft that makes it; `place`
    is that of the first draft. -/
def placedReferences (place : Nat) (batch : List Draft) : List (Nat × DraftReference) :=
  (batch.zipIdx place).flatMap fun (draft, place) => draft.references.map (place, ·)

/-- The records that the drafts of a batch become; `place` is that of the first draft. -/
def numberedBatch (first : RecordId) (place : Nat) (batch : List Draft) : List Record :=
  (batch.zipIdx place).map fun (draft, place) => draft.numbered first place

theorem resolveFrom_eq {first : RecordId} {place : Nat} (batch : List Draft)
    (hroom : first.toNat + place + batch.length < UInt64.size) :
    resolveFrom first ((List.range place).map first.offset) batch =
      unlessRefused
        ((placedReferences place batch).findSome? fun (place, reference) =>
          reference.refusal? first place)
        (numberedBatch first place batch) := by
  induction batch generalizing place with
  | nil => rfl
  | cons draft rest ih =>
      rw [List.length_cons] at hroom
      have hpreceding : (List.range place).map first.offset ++ [first.offset place] =
          (List.range (place + 1)).map first.offset := by
        rw [List.range_succ, List.map_append, List.map_singleton]
      have hrefusals : (placedReferences place (draft :: rest)).findSome?
            (fun (place, reference) => reference.refusal? first place) =
          (draft.references.findSome? (·.refusal? first place)).or
            ((placedReferences (place + 1) rest).findSome? fun (place, reference) =>
              reference.refusal? first place) := by
        unfold placedReferences
        rw [List.zipIdx_cons, List.flatMap_cons, List.findSome?_append, List.findSome?_map]
        rfl
      rw [resolveFrom, List.length_map, List.length_range, hrefusals,
        Operation.resolve_eq (by omega) draft, hpreceding, ih (by omega)]
      refine bind_unlessRefused ?_
      exact map_unlessRefused (draft.numbered first place :: ·)

/-- The first reference that names nothing older refuses a batch. -/
theorem resolveBatch_eq {first : RecordId} (batch : List Draft)
    (hroom : first.toNat + batch.length < UInt64.size) :
    resolveBatch first batch =
      unlessRefused
        ((placedReferences 0 batch).findSome? fun (place, reference) =>
          reference.refusal? first place)
        (numberedBatch first 0 batch) := @resolveFrom_eq first 0 batch hroom

theorem mem_placedReferences {batch : List Draft} {place : Nat} {reference : DraftReference} :
    (place, reference) ∈ placedReferences 0 batch ↔
      ∃ draft, batch[place]? = some draft ∧ reference ∈ draft.references := by
  unfold placedReferences
  constructor
  · intro hmem
    obtain ⟨⟨draft, i⟩, hplaced, hlisted⟩ := List.mem_flatMap.mp hmem
    obtain ⟨other, hmakes, hsame⟩ := List.mem_map.mp hlisted
    cases hsame
    exact ⟨draft, List.mem_zipIdx_iff_getElem?.mp hplaced, hmakes⟩
  · rintro ⟨draft, hplace, hmakes⟩
    exact List.mem_flatMap.mpr
      ⟨(draft, place), List.mem_zipIdx_iff_getElem?.mpr hplace, List.mem_map_of_mem hmakes⟩

/-- Whether all references of a batch name something older. -/
def Acceptable (first : RecordId) (batch : List Draft) : Prop :=
  ∀ (place : Nat) (draft : Draft), batch[place]? = some draft →
    ∀ reference ∈ draft.references, reference.Older first place

/-- Whether a batch is refused for its first reference that names nothing older. -/
def RefusedFor (first : RecordId) (batch : List Draft) (cause : ReferenceError) : Prop :=
  ∃ front place reference back,
    placedReferences 0 batch = front ++ (place, reference) :: back ∧
      (∀ earlier ∈ front, earlier.2.Older first earlier.1) ∧ ¬ reference.Older first place ∧
        cause = reference.refusal first place

section Batch

variable {first : RecordId} {batch : List Draft} {records : List Record} {cause : ReferenceError}
    (hroom : first.toNat + batch.length < UInt64.size)

include hroom

theorem resolveBatch_ok_iff :
    resolveBatch first batch = .ok records ↔
      Acceptable first batch ∧ records = numberedBatch first 0 batch := by
  rw [resolveBatch_eq batch hroom]
  cases hrefused : (placedReferences 0 batch).findSome? fun (place, reference) =>
      reference.refusal? first place with
  | none =>
      have hacceptable : Acceptable first batch := by
        intro place draft hplace reference hmakes
        have holder := List.findSome?_eq_none_iff.mp hrefused (place, reference)
          (mem_placedReferences.mpr ⟨draft, hplace, hmakes⟩)
        exact DraftReference.refusal?_eq_none_iff.mp holder
      exact ⟨fun h => ⟨hacceptable, (Except.ok.inj h).symm⟩, fun h => congrArg Except.ok h.2.symm⟩
  | some cause =>
      constructor
      · nofun
      · rintro ⟨hacceptable, -⟩
        obtain ⟨⟨place, reference⟩, hlisted, hrefusal⟩ := List.exists_of_findSome?_eq_some hrefused
        obtain ⟨draft, hplace, hmakes⟩ := mem_placedReferences.mp hlisted
        have hyounger := (DraftReference.refusal?_eq_some_iff.mp hrefusal).1
        exact absurd (hacceptable place draft hplace reference hmakes) hyounger

theorem resolveBatch_error_iff :
    resolveBatch first batch = .error cause ↔ RefusedFor first batch cause := by
  have hrefused_iff : (placedReferences 0 batch).findSome? (fun (place, reference) =>
      reference.refusal? first place) = some cause ↔ RefusedFor first batch cause := by
    rw [List.findSome?_eq_some_iff]
    constructor
    · rintro ⟨front, ⟨place, reference⟩, back, hsplit, hrefusal, hearlier⟩
      obtain ⟨hyounger, hshown⟩ := DraftReference.refusal?_eq_some_iff.mp hrefusal
      exact ⟨front, place, reference, back, hsplit,
        fun one hmem => DraftReference.refusal?_eq_none_iff.mp (hearlier one hmem),
          hyounger, hshown⟩
    · rintro ⟨front, place, reference, back, hsplit, hearlier, hyounger, hshown⟩
      exact ⟨front, (place, reference), back, hsplit,
        DraftReference.refusal?_eq_some_iff.mpr ⟨hyounger, hshown⟩,
        fun one hmem => DraftReference.refusal?_eq_none_iff.mpr (hearlier one hmem)⟩
  rw [resolveBatch_eq batch hroom, ← hrefused_iff]
  cases (placedReferences 0 batch).findSome? fun (place, reference) =>
      reference.refusal? first place <;> simp [unlessRefused]

end Batch

end Provenance
