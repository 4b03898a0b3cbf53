import Provenance.Proofs.Markup.Lossless
import Provenance.Proofs.Trace.Lossless
import Provenance.Record.Draft

/-! # Everything that is written comes back

For each of the written types, what is read from the text of a value is that value.
-/

namespace Provenance

open Json (Tree Lossless lossless_of_faithful lossless_list)
open Json.Decode (list)
open Markup

/-- Nothing is lost in writing a value and reading it back, as long as numbers are integers that fit
    64 bits and no kind poses as another one. -/
theorem codecs_lossless :
    Lossless Record.toJson Record.decode (·.Writable) ∧
    Lossless Draft.toJson Draft.decode Draft.Writable ∧
    Lossless (fun records => .arr (records.map Record.toJson)) (list Record.decode)
      (∀ record ∈ ·, record.Writable) ∧
    Lossless (fun drafts => .arr (drafts.map Draft.toJson)) (list Draft.decode)
      (∀ draft ∈ ·, draft.Writable) ∧
    Lossless Origin.toJson Origin.decode (fun _ => True) ∧
    Lossless Snapshot.toJson Snapshot.decode (fun _ => True) ∧
    Lossless ResolvedOrigin.toJson ResolvedOrigin.decode (·.charIndex ≤ Number.greatest) ∧
    Lossless Step.toJson Step.decode (·.charIndex ≤ Number.greatest) ∧
    Lossless Trace.toJson Trace.decode Trace.Writable ∧
    Lossless TraceEnd.toJson TraceEnd.decode TraceEnd.Writable ∧
    Lossless Terminal.toJson Terminal.decode (fun _ => True) ∧
    Lossless Fragment.toJson Fragment.decode Fragment.Writable ∧
    Lossless MappedOrigin.toJson MappedOrigin.decode (·.target.Writable) := by
  refine ⟨?record, ?draft, ?records, ?drafts, ?origin, ?snapshot, ?resolved, ?step, ?trace, ?ending,
    ?terminal, ?fragment, ?mapped⟩
  case record => exact lossless_of_faithful Record.faithful
  case draft => exact lossless_of_faithful Draft.faithful
  case records => exact lossless_list Record.faithful
  case drafts => exact lossless_list Draft.faithful
  case origin => exact lossless_of_faithful fun _ => Origin.faithful _
  case snapshot => exact lossless_of_faithful fun _ => Snapshot.faithful _
  case resolved => exact lossless_of_faithful ResolvedOrigin.faithful
  case step => exact lossless_of_faithful Step.faithful
  case trace => exact lossless_of_faithful Trace.faithful
  case ending => exact lossless_of_faithful TraceEnd.faithful
  case terminal => exact lossless_of_faithful fun _ => Terminal.faithful _
  case fragment => exact lossless_of_faithful Fragment.faithful
  case mapped => exact lossless_of_faithful MappedOrigin.faithful

/-- Operands out of order, tracked and untracked, with the least and the greatest integer; a kind
    that nobody knows; a table of corrections and a text that are there but empty; and a root. -/
theorem codecs_lossless_unknown :
    let args : List (String × Operand DraftReference) :=
      [("right", ⟨.str "a\"\n", some (.inBatch 0)⟩), ("left", ⟨.null, none⟩),
        ("0", ⟨.obj [("b", .int (-0x8000000000000000)), ("a", .arr [.nat 0xFFFFFFFFFFFFFFFF])],
          some (.stored ⟨3⟩)⟩)]
    let drafts : List Draft :=
      [{ kind := .other "awaitExpression", args := .ofList args }, Draft.stringLiteral "a"]
    let trace : Trace := ⟨[⟨⟨3⟩, 4⟩], .unsupported (.other "awaitExpression") "no rule registered"⟩
    let origin : Origin :=
      { action := .textValue, start := 2, extra := -1, offsets := some [], value := "",
        capture := some "" }
    let fragment := (Fragment.new "DIV").appendText Fragment.root "<"
    (Tree.read (Json.arr (drafts.map Draft.toJson)).render).bind (list Draft.decode) =
        some drafts ∧
      (Tree.read trace.toJson.render).bind Trace.decode = some trace ∧
      (Tree.read origin.toJson.render).bind Origin.decode = some origin ∧
      (Tree.read fragment.toJson.render).bind Fragment.decode = some fragment := by
  intro args drafts trace origin fragment
  obtain ⟨-, -, -, hofDrafts, hofOrigin, -, -, -, hofTrace, -, -, hofFragment, -⟩ := codecs_lossless
  have hunknown : Draft.Writable { kind := .other "awaitExpression", args := .ofList args } :=
    ⟨⟨by decide, by decide⟩, by decide⟩
  have hliteral : (Draft.stringLiteral "a").Writable := ⟨⟨by decide, by decide⟩, by decide⟩
  have hwritable : ∀ draft ∈ drafts, draft.Writable := by
    simp [drafts, hunknown, hliteral]
  exact ⟨hofDrafts drafts hwritable (by decide), hofTrace trace ⟨by decide, rfl⟩ (by decide),
    hofOrigin origin trivial (by decide), hofFragment fragment (by decide) (by decide)⟩

end Provenance
