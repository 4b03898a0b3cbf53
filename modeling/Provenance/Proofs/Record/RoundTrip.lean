import Provenance.Proofs.Json.Fields
import Provenance.Record.Codec

/-! # Written records are read back

A record is read back from its written form if its values are plain, it is not nested too
deep, and a kind without a name of its own does not have the tag of one that has.
-/

namespace Provenance

open Json (Decoder Tree)
open Json.Decode

/-- Whether the kind is the one that its tag stands for: no kind with a name of its own is
    written like it, in either spelling. -/
def Kind.isCanonical : Kind → Bool
  | .other tag => known.all fun kind => kind.tag != tag && kind.shortTag != tag
  | _ => true

theorem Kind.ofTag_tag {kind : Kind} (hcanonical : kind.isCanonical) : ofTag kind.tag = kind := by
  cases kind with
  | other tag =>
      have hunknown : known.find? (fun kind => kind.tag == tag || kind.shortTag == tag) = none := by
        rw [List.find?_eq_none]
        intro kind hlisted
        have hapart := List.all_eq_true.mp hcanonical kind hlisted
        simpa using hapart
      exact congrArg (Option.getD · (other tag)) hunknown
  | _ => rfl

theorem Kind.returns {kind : Kind} (hcanonical : kind.isCanonical) :
    Returns Kind.decode kind.toJson kind where
  decoded := congrArg some (Kind.ofTag_tag hcanonical)
  notNull := nofun

theorem RecordId.returns (id : RecordId) : Returns RecordId.decode id.toJson id where
  decoded := by
    unfold RecordId.decode RecordId.toJson RecordId.toNat
    rw [word_nat, Option.map_some]
  notNull := nofun

theorem Position.returns (position : Position) :
    Returns Position.decode position.toJson position where
  decoded := by
    have hfound : slots ["line", "column"] position.toJson.toTree = some _ :=
      slots_given [("line", some (.nat position.line.toNat)),
        ("column", some (.nat position.column.toNat))] (by simp)
    unfold Position.decode
    rw [hfound]
    simp [word32_nat]
  notNull := nofun

theorem returns_string (s : String) : Returns string (.str s) s where
  decoded := rfl
  notNull := nofun

theorem SourceLocation.returns (location : SourceLocation) :
    Returns SourceLocation.decode location.toJson location where
  decoded := by
    have hfound : slots ["file", "start", "end"] location.toJson.toTree = some _ :=
      slots_given [("file", some (.str location.file)), ("start", some location.start.toJson),
        ("end", some location.stop.toJson)] (by simp)
    unfold SourceLocation.decode
    rw [hfound]
    simp [(returns_string _).decoded, (Position.returns _).decoded]
  notNull := nofun

theorem AssignmentTarget.returns (target : AssignmentTarget) :
    Returns AssignmentTarget.decode target.toJson target where
  decoded := by cases target <;> rfl
  notNull := nofun

theorem StaticArgs.toJson_eq_given (args : StaticArgs) : args.toJson =
    .obj (Json.given [("operator", args.operator.map .str),
      ("target", args.target.map AssignmentTarget.toJson),
      ("loc", args.location.map SourceLocation.toJson)]) := by
  simp [StaticArgs.toJson, Json.given]

theorem StaticArgs.returns (args : StaticArgs) : Returns StaticArgs.decode args.toJson args where
  decoded := by
    have hfound : slots ["operator", "target", "loc"] args.toJson.toTree = some _ :=
      args.toJson_eq_given ▸ slots_given _ (by simp)
    unfold StaticArgs.decode
    rw [hfound]
    simp [optional_of_returns fun _ _ => returns_string _,
      optional_of_returns fun _ _ => AssignmentTarget.returns _,
      optional_of_returns fun _ _ => SourceLocation.returns _]
  notNull := nofun

section Operands

variable {ρ : Type} {encode : ρ → Json} {decode : Decoder ρ}

theorem Operand.toJson_eq_given (encode : ρ → Json) (operand : Operand ρ) :
    operand.toJson encode = .obj (Json.given [("value", some operand.value),
      ("tracking", operand.tracking.map encode)]) := by
  simp [Operand.toJson, Json.given, Json.field?]

theorem Operand.returns {operand : Operand ρ}
    (htracked : ∀ reference ∈ operand.tracking, Returns decode (encode reference) reference)
    (hplain : (operand.toJson encode).isPlain) :
    Returns (Operand.decode decode) (operand.toJson encode) operand where
  decoded := by
    have hfound : slots ["value", "tracking"] (operand.toJson encode).toTree = some _ :=
      operand.toJson_eq_given encode ▸ slots_given _ (by simp)
    have hvalue : operand.value.toTree.toJson = some operand.value :=
      Json.toJson_toTree _ (Json.isPlain_of_mem hplain List.mem_cons_self)
    unfold Operand.decode
    rw [hfound]
    simp [hvalue, maybeNull_of_returns htracked]
  notNull := nofun

theorem Operands.eq_of_entries {operands others : Operands ρ}
    (hsame : operands.entries = others.entries) : operands = others := by
  cases operands
  cases others
  cases hsame
  rfl

theorem Operands.ofList_entries (operands : Operands ρ) : ofList operands.entries = operands :=
  eq_of_entries (Named.distinct_of_nodup operands.distinct)

theorem Operands.mem_references {operands : Operands ρ} {reference : ρ} :
    reference ∈ operands.references ↔
      ∃ entry ∈ operands.entries, entry.2.tracking = some reference := List.mem_filterMap

theorem Operands.returns (operands : Operands ρ)
    (htracked : ∀ reference ∈ operands.references, Returns decode (encode reference) reference)
    (hplain : (operands.toJson encode).isPlain) :
    Returns (Operands.decode decode) (operands.toJson encode) operands where
  decoded := by
    have heach : ∀ entries ⊆ operands.entries,
        (Json.memberTrees (entries.map fun entry => (entry.1, entry.2.toJson encode))).mapM
          (fun member => (Operand.decode decode member.2).map (member.1, ·)) = some entries := by
      intro entries hinside
      induction entries with
      | nil => rfl
      | cons entry entries ih =>
          obtain ⟨hlisted, hothers⟩ := List.cons_subset.mp hinside
          have hread : Returns (Operand.decode decode) (entry.2.toJson encode) entry.2 :=
            Operand.returns
              (fun reference hshown =>
                htracked reference (mem_references.mpr ⟨entry, hlisted, hshown⟩))
              (Json.isPlain_of_mem hplain (List.mem_map.mpr ⟨entry, hlisted, rfl⟩))
          simp [Json.memberTrees, hread.decoded, ih hothers]
    unfold Operands.decode Operands.toJson
    simp only [Json.toTree]
    rw [heach operands.entries (List.Subset.refl _), Option.map_some, Operands.ofList_entries]
  notNull := nofun

theorem Operands.withDefault_of_returns (operands : Operands ρ)
    (htracked : ∀ reference ∈ operands.references, Returns decode (encode reference) reference)
    (hplain : ∀ written ∈ operands.toJson? encode, written.isPlain) :
    withDefault .empty (Operands.decode decode) (Slot.ofField (operands.toJson? encode)) =
      some operands := by
  -- operands that are left out come back as the default, which is to have none
  unfold Operands.toJson? at hplain ⊢
  split
  · rename_i hnone
    exact congrArg some (eq_of_entries (List.isEmpty_iff.mp hnone).symm)
  · rename_i hsome
    rw [if_neg hsome] at hplain
    exact (Operands.returns operands htracked (hplain _ rfl)).decoded

/-- The fields of an operation, with what is written for each. -/
def Operation.written (encode : ρ → Json) (op : Operation ρ) : List (String × Option Json) :=
  [("kind", some op.kind.toJson), ("args", some (op.args.toJson encode)),
    ("static_args", some op.staticArgs.toJson), ("extra_args", op.extraArgs.toJson? encode),
    ("runtime_args", op.runtimeArgs.toJson? encode), ("result", some op.result)]

theorem Operation.members_eq_given (encode : ρ → Json) (op : Operation ρ) :
    op.members encode = Json.given (op.written encode) := by
  simp [members, Json.given, written, Json.field?]

theorem Operation.ofSlots_written {op : Operation ρ}
    (htracked : ∀ reference ∈ op.references, Returns decode (encode reference) reference)
    (hcanonical : op.kind.isCanonical) (hplain : Json.membersPlain (op.members encode)) :
    Operation.ofSlots decode ((op.written encode).map fun field => Slot.ofField field.2) =
      some op := by
  have hvalues : ∀ name value, (name, some value) ∈ op.written encode → value.isPlain := by
    intro name value hfield
    rw [members_eq_given] at hplain
    exact Json.membersPlain_iff.mp hplain (name, value)
      (List.mem_flatMap.mpr ⟨_, hfield, Json.mem_field?.mpr rfl⟩)
  have hkind := (Kind.returns hcanonical).decoded
  obtain ⟨hofArgs, hofRuntimeArgs⟩ := List.forall_mem_append.mp htracked
  obtain ⟨hofArgs, hofExtraArgs⟩ := List.forall_mem_append.mp hofArgs
  have hargs := (Operands.returns op.args hofArgs (hvalues "args" _ (by simp [written]))).decoded
  have hstaticArgs := (StaticArgs.returns op.staticArgs).decoded
  have hextraArgs := Operands.withDefault_of_returns op.extraArgs hofExtraArgs fun value hshown =>
    hvalues "extra_args" value (by simp [written, Option.mem_def.mp hshown])
  have hruntimeArgs :=
    Operands.withDefault_of_returns op.runtimeArgs hofRuntimeArgs fun value hshown =>
    hvalues "runtime_args" value (by simp [written, Option.mem_def.mp hshown])
  have hresult := Json.toJson_toTree op.result (hvalues "result" _ (by simp [written]))
  simp [written, ofSlots, hkind, hargs, hstaticArgs, hextraArgs, hruntimeArgs, hresult]

end Operands

/-- Whether a record can be kept in its written form: all values are plain, nothing is nested
    too deep, and the kind is canonical. -/
structure Record.Storable (record : Record) : Prop where
  plain : record.toJson.isPlain
  shallow : record.toJson.levels ≤ Json.deepest
  canonical : record.kind.isCanonical

instance (record : Record) : Decidable record.Storable :=
  decidable_of_iff (record.toJson.isPlain ∧ record.toJson.levels ≤ Json.deepest ∧
      record.kind.isCanonical)
    ⟨fun ⟨hplain, hshallow, hcanonical⟩ => ⟨hplain, hshallow, hcanonical⟩,
      fun hstorable => ⟨hstorable.plain, hstorable.shallow, hstorable.canonical⟩⟩

theorem Record.toJson_eq_given (record : Record) : record.toJson = .obj (Json.given
    (("id", some record.id.toJson) :: record.written RecordId.toJson)) := by
  rw [Record.toJson, Operation.members_eq_given]
  rfl

theorem Record.returns {record : Record} (hcanonical : record.kind.isCanonical)
    (hplain : record.toJson.isPlain) : Returns Record.decode record.toJson record where
  decoded := by
    have hfound : slots ("id" :: Operation.fields) record.toJson.toTree = some _ :=
      record.toJson_eq_given ▸ slots_given _ (by simp [Operation.written])
    have hmembers : Json.membersPlain (record.members RecordId.toJson) :=
      (Bool.and_eq_true_iff.mp (Bool.and_eq_true_iff.mp hplain).2).2
    have hoperation :=
      Operation.ofSlots_written (fun id _ => RecordId.returns id) hcanonical hmembers
    unfold Record.decode
    rw [hfound]
    simp [(RecordId.returns record.id).decoded, hoperation]
  notNull := nofun

/-- A record that can be kept is read back from its written form. -/
theorem Record.read_render {record : Record} (hstorable : record.Storable) :
    Record.read record.render = some record := by
  rw [Record.read, Record.render, Json.read_render hstorable.plain hstorable.shallow]
  exact (Record.returns hstorable.canonical hstorable.plain).decoded

end Provenance
