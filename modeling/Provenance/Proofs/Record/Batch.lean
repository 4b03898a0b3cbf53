import Mathlib.Data.List.Basic
import Provenance.Log.Basic

/-! # Resolved batches

The records of a batch that is accepted have consecutive identifiers, in the order of the
drafts, and the identifier after them is the first one that was not given out. They refer only
to records before them.
-/

namespace Provenance

theorem bind_eq_ok {ε α β : Type} {x : Except ε α} {f : α → Except ε β} {b : β}
    (h : x >>= f = .ok b) : ∃ a, x = .ok a ∧ f a = .ok b := by
  cases x with
  | error e => cases h
  | ok a => exact ⟨a, rfl, h⟩

namespace RecordId

theorem toNat_lt (id : RecordId) : id.toNat < UInt64.size := id.val.toNat_lt

theorem toNat_offset (id : RecordId) (n : Nat) :
    (id.offset n).toNat = (id.toNat + n) % UInt64.size := by
  simp [offset, toNat, UInt64.toNat_add, UInt64.toNat_ofNat', UInt64.size]

theorem offset_add (id : RecordId) (m n : Nat) : (id.offset m).offset n = id.offset (m + n) := by
  apply toNat_injective
  rw [toNat_offset, toNat_offset, toNat_offset, Nat.mod_add_mod, Nat.add_assoc]

theorem offset_zero (id : RecordId) : id.offset 0 = id := by
  apply toNat_injective
  rw [toNat_offset]
  exact Nat.mod_eq_of_lt id.toNat_lt

theorem next_eq_offset (id : RecordId) : id.next = id.offset 1 := rfl

theorem next_injective {one other : RecordId} (hsame : one.next = other.next) : one = other :=
  congrArg mk (UInt64.add_left_inj 1 |>.mp (congrArg val hsame))

theorem toNat_first_offset {n : Nat} (hroom : n + 1 < UInt64.size) :
    (first.offset n).toNat = n + 1 := by
  have hone : first.toNat = 1 := rfl
  rw [toNat_offset, hone, Nat.add_comm, Nat.mod_eq_of_lt hroom]

end RecordId

/-- What a draft becomes: the same operation under the identifier, all references resolved. -/
theorem Operation.resolve_eq_ok {draft : Draft} {id : RecordId} {preceding : List RecordId}
    {record : Record} (h : draft.resolve id preceding = .ok record) :
    ∃ args extraArgs runtimeArgs,
      draft.args.resolve (DraftReference.resolve id preceding) = .ok args ∧
      draft.extraArgs.resolve (DraftReference.resolve id preceding) = .ok extraArgs ∧
      draft.runtimeArgs.resolve (DraftReference.resolve id preceding) = .ok runtimeArgs ∧
      record = { draft with id, args, extraArgs, runtimeArgs } := by
  obtain ⟨args, hargs, h⟩ := bind_eq_ok h
  obtain ⟨extraArgs, hextraArgs, h⟩ := bind_eq_ok h
  obtain ⟨runtimeArgs, hruntimeArgs, h⟩ := bind_eq_ok h
  cases h
  exact ⟨args, extraArgs, runtimeArgs, hargs, hextraArgs, hruntimeArgs, rfl⟩

theorem resolveFrom_cons {first : RecordId} {preceding : List RecordId} {draft : Draft}
    {rest : List Draft} {records : List Record}
    (h : resolveFrom first preceding (draft :: rest) = .ok records) :
    ∃ record others, draft.resolve (first.offset preceding.length) preceding = .ok record ∧
      resolveFrom first (preceding ++ [first.offset preceding.length]) rest = .ok others ∧
      records = record :: others := by
  obtain ⟨record, hresolved, h⟩ := bind_eq_ok h
  obtain ⟨others, hoffset, h⟩ := bind_eq_ok h
  cases h
  exact ⟨record, others, hresolved, hoffset, rfl⟩

theorem ids_of_resolveFrom {first : RecordId} {preceding : List RecordId} {batch : List Draft}
    {records : List Record} (h : resolveFrom first preceding batch = .ok records) :
    records.map (·.id) =
      (List.range batch.length).map fun i => first.offset (preceding.length + i) := by
  induction batch generalizing preceding records with
  | nil =>
      cases h
      rfl
  | cons draft rest ih =>
      obtain ⟨record, others, hresolved, hrested, rfl⟩ := resolveFrom_cons h
      obtain ⟨-, -, -, -, -, -, rfl⟩ := Operation.resolve_eq_ok hresolved
      simp only [List.map_cons, ih hrested, List.length_cons, List.range_succ_eq_map,
        List.map_map, List.length_append, Function.comp_def, Nat.add_zero]
      congr 2
      funext i
      congr 1
      simp only [List.length_nil]
      omega

/-- The identifiers of a batch, in order. -/
theorem ids_of_resolveBatch {first : RecordId} {batch : List Draft} {records : List Record}
    (h : resolveBatch first batch = .ok records) :
    records.map (·.id) = (List.range batch.length).map first.offset := by
  simpa using ids_of_resolveFrom h

theorem nextAfter_of_resolveBatch {first : RecordId} {batch : List Draft} {records : List Record}
    (h : resolveBatch first batch = .ok records) :
    nextAfter first records = first.offset batch.length := by
  have hids := ids_of_resolveBatch h
  have hlengths : records.length = batch.length := by simpa using congrArg List.length hids
  cases hlast : records.getLast? with
  | none =>
      rw [List.getLast?_eq_none_iff.mp hlast] at hlengths
      simp [nextAfter, hlast, ← hlengths, RecordId.offset_zero]
  | some record =>
      have hsame := congrArg List.getLast? hids
      have hsome : batch.length ≠ 0 := by
        rintro hnone
        simp [List.length_eq_zero_iff.mp (hlengths.trans hnone)] at hlast
      rw [List.getLast?_map, hlast, List.getLast?_map, List.getLast?_range, if_neg hsome] at hsame
      have hnamed : record.id = first.offset (batch.length - 1) := by simpa using hsame
      rw [nextAfter, hlast]
      change record.id.next = _
      rw [hnamed, RecordId.next_eq_offset, RecordId.offset_add]
      congr 1
      omega

/-- The identifier after the last one is the next one. -/
theorem nextAfter_next (id : RecordId) (records : List Record) :
    nextAfter id.next records = (lastOf id records).next := by
  unfold nextAfter lastOf
  cases records.getLast? <;> rfl

theorem length_of_resolveBatch {first : RecordId} {batch : List Draft} {records : List Record}
    (h : resolveBatch first batch = .ok records) : records.length = batch.length := by
  simpa using congrArg List.length (ids_of_resolveBatch h)

/-! ## References -/

namespace Operands

variable {ρ σ ε : Type} {resolve : ρ → Except ε σ} {target : σ}

theorem exists_of_resolveEntries {entries : Named (Operand ρ)}
    {resolved : { resolved : Named (Operand σ) // resolved.names = entries.names }}
    (h : resolveEntries resolve entries = .ok resolved)
    (hmem : target ∈ resolved.val.filterMap fun entry => entry.2.tracking) :
    ∃ source, resolve source = .ok target := by
  induction entries with
  | nil =>
      cases h
      cases hmem
  | cons entry rest ih =>
      obtain ⟨name, operand⟩ := entry
      unfold resolveEntries at h
      split at h
      · cases h
      rename_i tracking htracked
      split at h
      · cases h
      rename_i others hsame hrested
      cases h
      obtain ⟨found, hlisted, htracks⟩ := List.mem_filterMap.mp hmem
      obtain rfl | hlater := List.mem_cons.mp hlisted
      · obtain rfl : tracking = some target := htracks
        cases hshown : operand.tracking with
        | none =>
            rw [hshown] at htracked
            cases htracked
        | some source =>
            rw [hshown] at htracked
            cases hresolves : resolve source with
            | error e => simp [hresolves, Functor.map, Except.map] at htracked
            | ok value =>
                obtain rfl : value = target := by
                  simpa [hresolves, Functor.map, Except.map] using htracked
                exact ⟨source, hresolves⟩
      · exact ih hrested (List.mem_filterMap.mpr ⟨found, hlater, htracks⟩)

/-- What resolved operands track is what a reference was resolved to. -/
theorem exists_of_resolve {operands : Operands ρ} {resolved : Operands σ}
    (h : operands.resolve resolve = .ok resolved) (hmem : target ∈ resolved.references) :
    ∃ source, resolve source = .ok target := by
  unfold Operands.resolve at h
  split at h
  · cases h
  · rename_i entries hsame hall
    cases h
    exact exists_of_resolveEntries hall hmem

end Operands

theorem DraftReference.resolve_eq_ok {id target : RecordId} {preceding : List RecordId}
    {reference : DraftReference} (h : reference.resolve id preceding = .ok target) :
    target < id ∨ target ∈ preceding := by
  cases reference with
  | stored source =>
      simp only [resolve] at h
      split at h
      · cases h
      · rename_i holder
        cases h
        exact .inl (RecordId.toNat_lt_iff.mpr
          (Nat.lt_of_not_le fun hle => holder (RecordId.toNat_le_iff.mpr hle)))
  | inBatch index =>
      simp only [resolve] at h
      split at h
      · rename_i source hfound
        cases h
        exact .inr (List.mem_of_getElem? hfound)
      · cases h

/-- What a record refers to is older, or precedes it in its batch. -/
theorem Operation.older_of_resolve {draft : Draft} {id reference : RecordId}
    {preceding : List RecordId} {record : Record} (h : draft.resolve id preceding = .ok record)
    (hmem : reference ∈ record.references) : reference < id ∨ reference ∈ preceding := by
  obtain ⟨args, extraArgs, runtimeArgs, hargs, hextraArgs, hruntimeArgs, rfl⟩ :=
    Operation.resolve_eq_ok h
  have hresolved : ∃ source, DraftReference.resolve id preceding source = .ok reference := by
    obtain (hplain | hextra) | hruntime := (List.mem_append.mp hmem).imp_left List.mem_append.mp
    · exact Operands.exists_of_resolve hargs hplain
    · exact Operands.exists_of_resolve hextraArgs hextra
    · exact Operands.exists_of_resolve hruntimeArgs hruntime
  obtain ⟨source, hresolves⟩ := hresolved
  exact DraftReference.resolve_eq_ok hresolves

/-- Every reference of the record names an older one. -/
def Record.LooksBack (record : Record) : Prop :=
  ∀ reference ∈ record.references, reference < record.id

theorem looksBack_of_resolveFrom {first : RecordId} {preceding : List RecordId}
    {batch : List Draft} {records : List Record}
    (h : resolveFrom first preceding batch = .ok records)
    (holder : ∀ id ∈ preceding, id.toNat < first.toNat + preceding.length)
    (hfits : first.toNat + preceding.length + batch.length ≤ UInt64.size) :
    ∀ record ∈ records, record.LooksBack := by
  induction batch generalizing preceding records with
  | nil =>
      cases h
      exact fun _ hmem => nomatch hmem
  | cons draft rest ih =>
      obtain ⟨record, others, hresolved, hrested, rfl⟩ := resolveFrom_cons h
      rw [List.length_cons] at hfits
      have hplace : (first.offset preceding.length).toNat = first.toNat + preceding.length := by
        rw [RecordId.toNat_offset]
        exact Nat.mod_eq_of_lt (by omega)
      refine List.forall_mem_cons.mpr ⟨?_, ?_⟩
      · have hnamed : record.id = first.offset preceding.length := by
          obtain ⟨_, _, _, -, -, -, hshown⟩ := Operation.resolve_eq_ok hresolved
          rw [hshown]
        intro reference hmem
        rw [hnamed]
        obtain hless | hbefore := Operation.older_of_resolve hresolved hmem
        · exact hless
        · exact RecordId.toNat_lt_iff.mpr (hplace ▸ holder reference hbefore)
      · refine ih hrested ?_ (by simp; omega)
        intro id hmem
        rw [List.length_append, List.length_singleton]
        obtain hbefore | hlast := List.mem_append.mp hmem
        · have := holder id hbefore
          omega
        · rw [List.mem_singleton.mp hlast, hplace]
          omega

/-- As long as the identifiers do not wrap around, the records of a batch refer to older ones
    only. -/
theorem looksBack_of_resolveBatch {first : RecordId} {batch : List Draft} {records : List Record}
    (h : resolveBatch first batch = .ok records)
    (hfits : first.toNat + batch.length ≤ UInt64.size) : ∀ record ∈ records, record.LooksBack :=
  looksBack_of_resolveFrom h (fun _ hmem => nomatch hmem) (by simpa using hfits)

end Provenance
