import Provenance.Proofs.Record.Lossless
import Provenance.Trace.Codec

/-! # Written traces lose nothing

Steps, traces, their ends and the reasons of rules come back as they were. An end and what belongs
to it stand side by side in one object; the reader takes the name out first.
-/

namespace Provenance

open Json (Decoder)
open Json.Decode

theorem Step.faithful {step : Step} (hfits : step.charIndex ≤ Number.greatest) :
    Faithful Step.decode step.toJson step := by
  have hid := RecordId.faithful step.id
  have hcharIndex := faithful_nat hfits
  exact faithful_of_fields [("id", some step.id.toJson), ("char_index", some (.nat step.charIndex))]
    rfl (by simp) (by simp [hid.plain, hcharIndex.plain]) (fun _ => rfl)
    (by simp [hid.decoded, hcharIndex.decoded])

/-- Whether an end names a kind, if any, that does not pose as another one. -/
def TraceEnd.Writable : TraceEnd → Prop
  | unsupported kind _ => kind.isCanonical
  | _ => True

theorem TraceEnd.faithful {ending : TraceEnd} (hwritable : ending.Writable) :
    Faithful TraceEnd.decode ending.toJson ending := by
  refine ⟨⟨?decoded, ?notNull⟩, ?plain⟩
  case decoded =>
    cases ending with
    | origin => rfl
    | synthesized => rfl
    | untracked operand => rfl
    | unsupported kind detail =>
        have hread := (Kind.faithful hwritable).decoded
        change (Kind.decode kind.toJson.toTree).bind (some <| unsupported · detail) = _
        rw [hread]
        rfl
    | incomplete missing =>
        have hread := (RecordId.faithful missing).decoded
        change (RecordId.decode missing.toJson.toTree).map incomplete = _
        rw [hread]
        rfl
  case notNull => cases ending <;> nofun
  case plain =>
    cases ending with
    | origin | synthesized | untracked | unsupported => rfl
    | incomplete missing =>
        simp [toJson, Json.isPlain, Json.membersPlain, Named.names,
          (RecordId.faithful missing).plain]

/-- Whether a trace can be written without loss: its indices are words of 64 bits. -/
structure Trace.Writable (trace : Trace) : Prop where
  steps : ∀ step ∈ trace.steps, step.charIndex ≤ Number.greatest
  ending : trace.ending.Writable

theorem Trace.faithful {trace : Trace} (hwritable : trace.Writable) :
    Faithful Trace.decode trace.toJson trace := by
  have hsteps : Faithful (list Step.decode) (.arr (trace.steps.map Step.toJson)) trace.steps :=
    faithful_list fun step hmem => Step.faithful (hwritable.steps step hmem)
  have hending := TraceEnd.faithful hwritable.ending
  exact faithful_of_fields [("steps", some (.arr (trace.steps.map Step.toJson))),
      ("end", some trace.ending.toJson)]
    rfl (by simp) (by simp [hsteps.plain, hending.plain]) (fun _ => rfl)
    (by simp [hsteps.decoded, hending.decoded])

theorem Terminal.faithful (reason : Terminal) : Faithful Terminal.decode reason.toJson reason where
  decoded := by cases reason <;> rfl
  notNull := by cases reason <;> nofun
  plain := by cases reason <;> rfl

end Provenance
