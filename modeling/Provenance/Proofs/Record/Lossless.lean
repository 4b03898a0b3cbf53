import Provenance.Proofs.Json.Lossless
import Provenance.Proofs.Record.RoundTrip

/-! # Written operations lose nothing

Drafts and records come back as they were, with the order of their operands, and with what each of
them tracks or does not track. All that can get lost is in the values that they hold, in a kind
that poses as another one, and in a place in a batch that needs more than 64 bits.
-/

namespace Provenance

open Json (Decoder)
open Json.Decode

theorem RecordId.faithful (id : RecordId) : Faithful RecordId.decode id.toJson id where
  toReturns := RecordId.returns id
  plain := (faithful_word id.val).plain

theorem Kind.faithful {kind : Kind} (hcanonical : kind.isCanonical) :
    Faithful Kind.decode kind.toJson kind where
  toReturns := Kind.returns hcanonical
  plain := rfl

theorem Position.isPlain_toJson (position : Position) : position.toJson.isPlain := by
  simp [Position.toJson, Json.isPlain, Json.membersPlain, Named.names,
    (faithful_word32 position.line).plain, (faithful_word32 position.column).plain]

theorem SourceLocation.isPlain_toJson (location : SourceLocation) : location.toJson.isPlain := by
  simp [SourceLocation.toJson, Json.isPlain, Json.membersPlain, Named.names,
    Position.isPlain_toJson]

theorem StaticArgs.isPlain_toJson (args : StaticArgs) : args.toJson.isPlain := by
  rw [args.toJson_eq_given]
  apply Json.isPlain_given (by simp)
  simp [AssignmentTarget.toJson, Json.isPlain, SourceLocation.isPlain_toJson]

/-- The values that an operation holds: those of its operands, and its result. -/
def Operation.values (op : Operation ρ) : List Json :=
  (op.args.entries ++ op.extraArgs.entries ++ op.runtimeArgs.entries).map (·.2.value) ++
    [op.result]

/-- Whether an operation can be written without loss, as far as its values and its kind go. -/
structure Operation.Writable (op : Operation ρ) : Prop where
  /-- All numbers are integers of 64 bits, and no object repeats a name. -/
  plain : ∀ value ∈ op.values, value.isPlain
  /-- A kind without a name of its own does not have the tag of one that has. -/
  canonical : op.kind.isCanonical

section Operands

variable {ρ : Type} {encode : ρ → Json} {decode : Decoder ρ}

theorem Operand.isPlain_toJson {operand : Operand ρ}
    (htracked : ∀ reference ∈ operand.tracking, (encode reference).isPlain)
    (hplain : operand.value.isPlain) : (operand.toJson encode).isPlain := by
  rw [operand.toJson_eq_given]
  apply Json.isPlain_given (by simp)
  simpa [hplain] using htracked

theorem Operands.isPlain_toJson {operands : Operands ρ}
    (htracked : ∀ reference ∈ operands.references, (encode reference).isPlain)
    (hplain : ∀ entry ∈ operands.entries, entry.2.value.isPlain) :
    (operands.toJson encode).isPlain := by
  have hnames : Named.names (operands.entries.map fun entry => (entry.1, entry.2.toJson encode)) =
      operands.entries.names := by
    simp [Named.names, Function.comp_def]
  refine Bool.and_eq_true_iff.mpr ⟨decide_eq_true (hnames ▸ operands.distinct), ?_⟩
  rw [Json.membersPlain_iff]
  intro member hlisted
  obtain ⟨entry, hinside, rfl⟩ := List.mem_map.mp hlisted
  exact Operand.isPlain_toJson
    (fun reference hshown => htracked reference (mem_references.mpr ⟨entry, hinside, hshown⟩))
    (hplain entry hinside)

theorem Operation.isPlain_written {op : Operation ρ} (hwritable : op.Writable)
    (htracked : ∀ reference ∈ op.references, (encode reference).isPlain) :
    ∀ field ∈ op.written encode, ∀ value ∈ field.2, value.isPlain := by
  obtain ⟨hvalues, hresult⟩ := List.forall_mem_append.mp hwritable.plain
  rw [List.forall_mem_map] at hvalues
  obtain ⟨hvalues, hofRuntimeArgs⟩ := List.forall_mem_append.mp hvalues
  obtain ⟨hofArgs, hofExtraArgs⟩ := List.forall_mem_append.mp hvalues
  obtain ⟨htracked, hbyRuntimeArgs⟩ := List.forall_mem_append.mp htracked
  obtain ⟨hbyArgs, hbyExtraArgs⟩ := List.forall_mem_append.mp htracked
  have hargs := Operands.isPlain_toJson hbyArgs hofArgs
  have hextraArgs := Operands.isPlain_toJson hbyExtraArgs hofExtraArgs
  have hruntimeArgs := Operands.isPlain_toJson hbyRuntimeArgs hofRuntimeArgs
  have hkind : op.kind.toJson.isPlain := rfl
  have hresult := hresult op.result (List.mem_singleton.mpr rfl)
  simp [written, hargs, op.staticArgs.isPlain_toJson, hkind, hresult, Operands.toJson?, hextraArgs,
    hruntimeArgs]

end Operands

theorem Record.faithful {record : Record} (hwritable : record.Writable) :
    Faithful Record.decode record.toJson record := by
  have hmembers := Operation.isPlain_written hwritable fun id _ => (RecordId.faithful id).plain
  have hplain : record.toJson.isPlain := by
    rw [record.toJson_eq_given]
    apply Json.isPlain_given (by simp [Operation.written])
    exact List.forall_mem_cons.mpr ⟨by simp [(RecordId.faithful record.id).plain], hmembers⟩
  exact ⟨Record.returns hwritable.canonical hplain, hplain⟩

/-- Whether a place in a batch is a word of 64 bits. -/
def DraftReference.Fits : DraftReference → Prop
  | stored _ => True
  | inBatch index => index ≤ Number.greatest

instance : (reference : DraftReference) → Decidable reference.Fits
  | .stored _ => .isTrue trivial
  | .inBatch index => inferInstanceAs (Decidable (index ≤ Number.greatest))

theorem DraftReference.faithful {reference : DraftReference} (hfits : reference.Fits) :
    Faithful DraftReference.decode reference.toJson reference := by
  cases reference with
  | stored id => exact ((RecordId.faithful id).map stored).alternative "stored" fun _ => rfl
  | inBatch index => exact ((faithful_nat hfits).map inBatch).alternative "batch" fun _ => rfl

/-- Whether a draft can be written without loss. -/
structure Draft.Writable (draft : Draft) : Prop extends Operation.Writable draft where
  fits : ∀ reference ∈ draft.references, reference.Fits

theorem Draft.faithful {draft : Draft} (hwritable : draft.Writable) :
    Faithful Draft.decode draft.toJson draft := by
  have htracked := fun reference hmem => DraftReference.faithful (hwritable.fits reference hmem)
  have hsame : draft.toJson = .obj (Json.given (draft.written DraftReference.toJson)) :=
    congrArg Json.obj (Operation.members_eq_given _ _)
  have hvalues := Operation.isPlain_written hwritable.toWritable fun reference hmem =>
    (htracked reference hmem).plain
  have hplain : Json.membersPlain (draft.members DraftReference.toJson) := by
    have hgiven := Json.isPlain_given (by simp [Operation.written]) hvalues
    rw [Operation.members_eq_given]
    exact (Bool.and_eq_true_iff.mp hgiven).2
  exact faithful_of_fields (draft.written DraftReference.toJson) hsame
    (by simp [Operation.written]) hvalues (fun _ => rfl)
    (Operation.ofSlots_written (fun reference hmem => (htracked reference hmem).toReturns)
      hwritable.canonical hplain)

end Provenance
