import Provenance.Markup.Codec
import Provenance.Trace.Codec
import Provenance.Trace.Walk

/-! # Inspecting markup

A character of serialized markup is led back to the assigned string, and from there
through the log.
-/

namespace Provenance

open Markup (Snapshot ResolvedOrigin)

/-- The origin of a character of markup, and the trace of the assigned character if it is
    known which record assigned it. -/
structure Inspection where
  origin : ResolvedOrigin
  trace : Option Trace
  deriving Inhabited

/-- Inspects a character of a snapshot; there is nothing to say of one without an origin. -/
def inspect [RecordLog σ] (options : WalkOptions) (snapshot : Snapshot) (index : Nat) (log : σ) :
    Except WalkError (Option Inspection) × σ :=
  match snapshot.originAt index with
  | none => (.ok none, log)
  | some origin =>
    match origin.origin.tracking with
    | none => (.ok (some ⟨origin, none⟩), log)
    | some id =>
      match walk options ⟨id, origin.charIndex⟩ log with
      | (.error e, log) => (.error e, log)
      | (.ok trace, log) => (.ok (some ⟨origin, some trace⟩), log)

/-- The inspection as an object. -/
def Inspection.toJson (inspection : Inspection) : Json :=
  .obj [("origin", inspection.origin.toJson),
    ("trace", match inspection.trace with
      | some trace => trace.toJson
      | none => .null)]

end Provenance
