import Provenance.Markup.Html
import Provenance.Markup.Origin

/-! # Looking up markup characters

The spans of a mapping are kept sorted by their starts. An index is looked up in the last
span that starts at or before it, found by halving.
-/

namespace Provenance.Markup

/-- An origin, and the index into the assigned string that was asked for. -/
structure ResolvedOrigin where
  origin : Origin
  charIndex : Nat
  deriving DecidableEq, Repr, Inhabited

/-- The spans of some markup, sorted by their starts. -/
structure Mapping where
  spans : Array Origin
  deriving Inhabited

namespace Mapping

/-- The mapping of some origins; empty spans are dropped, and spans that start together stay
    in order. -/
def ofOrigins (origins : List Origin) : Mapping :=
  ⟨((origins.filter fun origin => origin.length ≠ 0).mergeSort
    fun a b => a.start ≤ b.start).toArray⟩

/-- The mapping of mapped origins. -/
def ofMapped (mapped : List MappedOrigin) : Mapping := ofOrigins (mapped.map MappedOrigin.origin)

/-- How many of the spans from `low` on, among `count`, start at or before an index: the
    spans are sorted, so the middle one tells which half to look at. -/
def search (spans : Array Origin) (index : Nat) : (count low : Nat) → Nat
  | 0, low => low
  | count + 1, low =>
    let half := (count + 1) / 2
    match spans[low + half]? with
    | some span =>
      if span.start.toNat ≤ index then search spans index (count - half) (low + half + 1)
      else search spans index half low
    | none => low
termination_by count => count

/-- How many spans start at or before an index. -/
def startedBy (mapping : Mapping) (index : Nat) : Nat :=
  search mapping.spans index mapping.spans.size 0

/-- The origin of an index, and the assigned index it comes from. -/
def originAt (mapping : Mapping) (index : Nat) : Option ResolvedOrigin :=
  match mapping.startedBy index with
  | 0 => none
  | count + 1 =>
    match mapping.spans[count]? with
    | none => none
    | some origin =>
      if origin.covers index then
        (origin.assignedIndex index).map fun charIndex => { origin, charIndex }
      else none

/-- The span in which an index is looked up. -/
def consulted? (mapping : Mapping) (index : Nat) : Option Origin :=
  match mapping.startedBy index with
  | 0 => none
  | count + 1 => mapping.spans[count]?

/-- Whether a sum wraps around when an index is looked up: the end of the span, or, if the span
    covers the index, one of the sums behind the assigned index. -/
def wrapsAt (mapping : Mapping) (index : Nat) : Bool :=
  (mapping.consulted? index).any fun origin =>
    !origin.stopFits || origin.covers index && !origin.indexFits index

end Mapping

/-- Serialized markup with its origins. -/
structure Snapshot where
  html : String
  origins : List Origin
  deriving DecidableEq, Repr, Inhabited

namespace Snapshot

/-- The snapshot of the content of a container. -/
def capture (fragment : Fragment) (container : NodeId) (mapped : List MappedOrigin) : Snapshot where
  html := String.ofList (fragment.innerHtml container)
  origins := mapped.map MappedOrigin.origin

/-- The mapping of a snapshot. -/
def mapping (snapshot : Snapshot) : Mapping := .ofOrigins snapshot.origins

/-- The origin of a character of the markup. -/
def originAt (snapshot : Snapshot) (index : Nat) : Option ResolvedOrigin :=
  if index < snapshot.html.length then snapshot.mapping.originAt index else none

/-- Whether a sum wraps around when a character of the markup is looked up. -/
def wrapsAt (snapshot : Snapshot) (index : Nat) : Bool :=
  index < snapshot.html.length && snapshot.mapping.wrapsAt index

end Snapshot

end Provenance.Markup
