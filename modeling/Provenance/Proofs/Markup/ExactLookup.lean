import Provenance.Proofs.Markup.Lookup
import Provenance.Proofs.Markup.Verbatim

/-! # Lookups without bounds

The formula behind a lookup, read over the integers: the span that an index lies in, and the index
less the characters that were added before, with the correction for its place in the span. Words
give the same answer exactly as long as no sum leaves them, and a lookup whose sums leave them
reports that.
-/

namespace Provenance.Markup

namespace Origin

/-- Whether an index lies in the span, with the end of the span counted without bound. -/
def Spans (origin : Origin) (index : Nat) : Prop :=
  origin.start.toNat ≤ index ∧ index < origin.start.toNat + origin.length.toNat

instance (origin : Origin) (index : Nat) : Decidable (origin.Spans index) :=
  inferInstanceAs (Decidable (_ ∧ _))

/-- An index less the characters that had been added before the span. -/
def place (origin : Origin) (index : Nat) : Int := index - origin.extra.toInt

/-- The assigned index of an index, counted without bound. -/
def exactIndex (origin : Origin) (index : Nat) : Int :=
  origin.place index + (origin.offsetAt (index - origin.start.toNat)).toInt

/-- Whether a lookup of the index in the span stays within the words. -/
structure Exact (origin : Origin) (index : Nat) : Prop where
  stop : origin.start.toNat + origin.length.toNat < UInt64.size
  place : isSigned (origin.place index) = true
  exactIndex : isSigned (origin.exactIndex index) = true

variable {origin : Origin} {index : Nat}

theorem toInt_sub_of_isSigned {a b : Int64} (h : isSigned (a.toInt - b.toInt) = true) :
    (a - b).toInt = a.toInt - b.toInt :=
  (Int64.toInt_sub a b).trans (bmod_of_isSigned h)

theorem toInt_add_of_isSigned {a b : Int64} (h : isSigned (a.toInt + b.toInt) = true) :
    (a + b).toInt = a.toInt + b.toInt :=
  (Int64.toInt_add a b).trans (bmod_of_isSigned h)

theorem indexFits_iff (hindex : index < lengthLimit) :
    origin.indexFits index = true ↔
      isSigned (origin.place index) = true ∧ isSigned (origin.exactIndex index) = true := by
  simp [indexFits, exactIndex, place, toInt_ofNat_of_lt hindex]

/-- Where both sums stay within the words, they give the assigned index, and it is missing exactly
    where that would be negative. -/
theorem assignedIndex_iff (hindex : index < lengthLimit) (hstart : origin.start.toNat ≤ index)
    (hplace : isSigned (origin.place index) = true)
    (hexact : isSigned (origin.exactIndex index) = true) (charIndex : Nat) :
    origin.assignedIndex index = some charIndex ↔ origin.exactIndex index = charIndex := by
  have hword := toInt_ofNat_of_lt hindex
  have hsub : (Int64.ofNat index - origin.extra).toInt = origin.place index := by
    rw [toInt_sub_of_isSigned (by rw [hword]; exact hplace), hword]
    rfl
  have hsum : (Int64.ofNat index - origin.extra
      + origin.offsetAt (index - origin.start.toNat)).toInt = origin.exactIndex index := by
    rw [toInt_add_of_isSigned (by rw [hsub]; exact hexact), hsub]
    rfl
  rw [assignedIndex, if_neg (Nat.not_lt_of_le hstart)]
  simp only [Int64.lt_iff_toInt_lt, hsum, Int64.toInt_zero, Int64.toNatClampNeg]
  split
  · constructor
    · intro hnone
      cases hnone
    · intro hindex
      omega
  · rw [Option.some_inj]
    omega

theorem covers_iff_spans (hfits : origin.stopFits = true) :
    origin.covers index = true ↔ origin.Spans index := by
  constructor
  · exact Mapping.lt_of_covers
  · rintro ⟨hstart, hstop⟩
    exact Mapping.covers_of_lt (of_decide_eq_true hfits) hstart hstop

/-- A lookup in the span that an index lies in leaves the words exactly where one of its sums
    does. -/
theorem wraps_iff (hindex : index < lengthLimit) (hspans : origin.Spans index) :
    (!origin.stopFits || origin.covers index && !origin.indexFits index) = true ↔
      ¬ origin.Exact index := by
  cases hstop : origin.stopFits with
  | false =>
      have hlarge := of_decide_eq_false hstop
      exact ⟨fun _ hexact => hlarge hexact.stop, fun _ => rfl⟩
  | true =>
      rw [(covers_iff_spans hstop).mpr hspans]
      cases hfits : origin.indexFits index with
      | true =>
          obtain ⟨hplace, hexact⟩ := (indexFits_iff hindex).mp hfits
          exact ⟨nofun, fun hnot => absurd ⟨of_decide_eq_true hstop, hplace, hexact⟩ hnot⟩
      | false =>
          refine ⟨fun _ hexact => ?_, fun _ => rfl⟩
          have hboth := (indexFits_iff hindex).mpr ⟨hexact.place, hexact.exactIndex⟩
          rw [hfits] at hboth
          cases hboth

end Origin

namespace Mapping

variable {origins : List Origin} {origin : Origin} {index : Nat}

/-- A lookup that leaves the words has consulted a span that the index lies in: a span whose end
    is no word reaches over every index behind its start. -/
theorem exists_of_wrapsAt (hindex : index < lengthLimit)
    (hwraps : (ofOrigins origins).wrapsAt index = true) :
    ∃ origin ∈ origins, origin.Spans index ∧ ¬ origin.Exact index := by
  obtain ⟨sorted, hsorted, hmapping⟩ := exists_inOrder origins
  rw [hmapping, wrapsAt, consulted?_of_rising hsorted.rising] at hwraps
  cases hlast : (sorted.filter (·.start.toNat ≤ index)).getLast? with
  | none => simp [hlast] at hwraps
  | some origin =>
      obtain ⟨hin, hstarted⟩ := List.mem_filter.mp (List.mem_of_getLast? hlast)
      have hmem : origin ∈ origins := (List.mem_filter.mp (hsorted.perm.mem_iff.mp hin)).1
      simp only [hlast, Option.any_some] at hwraps
      have hspans : origin.Spans index := by
        cases hstop : origin.stopFits with
        | true =>
            refine (Origin.covers_iff_spans hstop).mp ?_
            simp [hstop] at hwraps
            exact hwraps.1
        | false =>
            have hlarge := of_decide_eq_false hstop
            have hword : lengthLimit < UInt64.size := by decide
            exact ⟨of_decide_eq_true hstarted, by omega⟩
      exact ⟨origin, hmem, hspans, (Origin.wraps_iff hindex hspans).mp hwraps⟩

section Apart

variable (hapart : (origins.filter fun origin => origin.length ≠ 0).Pairwise Origin.Apart)
  (hindex : index < lengthLimit)

include hapart

theorem wrapsAt_of_spans (hmem : origin ∈ origins) (hspans : origin.Spans index) :
    (ofOrigins origins).wrapsAt index =
      (!origin.stopFits || origin.covers index && !origin.indexFits index) := by
  rw [wrapsAt, consulted?_of_apart hapart hmem hspans.1 hspans.2, Option.any_some]

include hindex

theorem wrapsAt_iff : (ofOrigins origins).wrapsAt index = true ↔
    ∃ origin ∈ origins, origin.Spans index ∧ ¬ origin.Exact index := by
  constructor
  · exact exists_of_wrapsAt hindex
  · intro ⟨origin, hmem, hspans, hleaves⟩
    rw [wrapsAt_of_spans hapart hmem hspans]
    exact (Origin.wraps_iff hindex hspans).mpr hleaves

theorem exact_of_not_wrapsAt (hwraps : (ofOrigins origins).wrapsAt index = false)
    (hmem : origin ∈ origins) (hspans : origin.Spans index) : origin.Exact index := by
  by_contra hleaves
  have hwrapping := (wrapsAt_iff hapart hindex).mpr ⟨origin, hmem, hspans, hleaves⟩
  rw [hwraps] at hwrapping
  cases hwrapping

/-- A lookup that stays within the words finds the span that the index lies in, and gives the
    assigned index that the formula has over the integers. -/
theorem originAt_iff_exactIndex (hwraps : (ofOrigins origins).wrapsAt index = false)
    (resolved : ResolvedOrigin) :
    (ofOrigins origins).originAt index = some resolved ↔
      resolved.origin ∈ origins ∧ resolved.origin.Spans index ∧
        resolved.origin.exactIndex index = resolved.charIndex := by
  rw [originAt_eq_some_iff hapart, Origin.resolve?_eq_some_iff]
  constructor
  · intro ⟨hmem, _, hcovers, hplace⟩
    have hspans := lt_of_covers hcovers
    have hexact := exact_of_not_wrapsAt hapart hindex hwraps hmem hspans
    exact ⟨hmem, hspans, (Origin.assignedIndex_iff hindex hspans.1 hexact.place hexact.exactIndex
      _).mp hplace⟩
  · intro ⟨hmem, hspans, hplace⟩
    have hexact := exact_of_not_wrapsAt hapart hindex hwraps hmem hspans
    exact ⟨hmem, rfl, covers_of_lt hexact.stop hspans.1 hspans.2,
      (Origin.assignedIndex_iff hindex hspans.1 hexact.place hexact.exactIndex _).mpr hplace⟩

theorem originAt_eq_none_iff_exactIndex (hwraps : (ofOrigins origins).wrapsAt index = false) :
    (ofOrigins origins).originAt index = none ↔
      ∀ origin ∈ origins, origin.Spans index → origin.exactIndex index < 0 := by
  have hiff := originAt_iff_exactIndex hapart hindex hwraps
  rw [Option.eq_none_iff_forall_ne_some]
  constructor
  · intro hnone origin hmem hspans
    refine Int.lt_of_not_ge fun hge => ?_
    refine hnone ⟨origin, (origin.exactIndex index).toNat⟩ ((hiff _).mpr ⟨hmem, hspans, ?_⟩)
    exact (Int.toNat_of_nonneg hge).symm
  · intro hnegative resolved hfound
    obtain ⟨hmem, hspans, hplace⟩ := (hiff resolved).mp hfound
    have hlt := hnegative _ hmem hspans
    omega

omit hindex in
/-- A span whose end is no word covers nothing. -/
theorem originAt_of_stop_too_large (hmem : origin ∈ origins) (hspans : origin.Spans index)
    (hlarge : UInt64.size ≤ origin.start.toNat + origin.length.toNat) :
    (ofOrigins origins).originAt index = none := by
  have hlength := origin.length.toNat_lt
  have hcovers : origin.covers index = false := by
    simp only [Origin.covers, Origin.stop, UInt64.toNat_add, Bool.and_eq_false_iff,
      decide_eq_false_iff_not]
    have hword : UInt64.size = 2 ^ 64 := rfl
    have hstart := hspans.1
    omega
  rw [originAt_eq_consulted?, consulted?_of_apart hapart hmem hspans.1 hspans.2, Option.bind_some,
    Origin.resolve?, if_neg (by simp [hcovers])]

end Apart

end Mapping

/-- Looking up a character of a snapshot whose spans do not overlap. The lookup leaves the words
    exactly where the end of the span that the character lies in is no word, or one of the two sums
    behind its assigned index is no signed word. Everywhere else it is exact: it finds a span just
    if the character lies in one, and gives the formula's value over the integers, or nothing where
    that is negative. A span whose end is no word would not be found. -/
theorem snapshot_originAt_exact (snapshot : Snapshot) (index : Nat)
    (hapart : (snapshot.origins.filter fun origin => origin.length ≠ 0).Pairwise Origin.Apart)
    (hsize : snapshot.html.length ≤ lengthLimit) (hindex : index < snapshot.html.length) :
    (snapshot.wrapsAt index = true ↔
      ∃ origin ∈ snapshot.origins, origin.Spans index ∧ ¬ origin.Exact index) ∧
    (snapshot.wrapsAt index = false →
      (∀ resolved, snapshot.originAt index = some resolved ↔
        resolved.origin ∈ snapshot.origins ∧ resolved.origin.Spans index ∧
          resolved.origin.exactIndex index = resolved.charIndex) ∧
      (snapshot.originAt index = none ↔
        ∀ origin ∈ snapshot.origins, origin.Spans index → origin.exactIndex index < 0)) ∧
    ∀ origin ∈ snapshot.origins, origin.Spans index →
      UInt64.size ≤ origin.start.toNat + origin.length.toNat →
        snapshot.originAt index = none := by
  have hwraps : snapshot.wrapsAt index = (Mapping.ofOrigins snapshot.origins).wrapsAt index := by
    simp [Snapshot.wrapsAt, Snapshot.mapping, hindex]
  have hlookup : snapshot.originAt index = (Mapping.ofOrigins snapshot.origins).originAt index := by
    rw [Snapshot.originAt, if_pos hindex, Snapshot.mapping]
  have hlimit := Nat.lt_of_lt_of_le hindex hsize
  rw [hwraps, hlookup]
  refine ⟨Mapping.wrapsAt_iff hapart hlimit, fun hwords =>
    ⟨?_, ?_⟩, fun origin hmem hspans hlarge => ?_⟩
  · exact Mapping.originAt_iff_exactIndex hapart hlimit hwords
  · exact Mapping.originAt_eq_none_iff_exactIndex hapart hlimit hwords
  · exact Mapping.originAt_of_stop_too_large hapart hmem hspans hlarge

/-- A span behind the first character of a text of two. -/
def spanOrigin (length : UInt64) (extra : Int64) : Origin :=
  { action := .textValue, start := 1, length, extra, value := "ab" }

/-- Two characters, and one span behind the first of them. -/
def spanSnapshot (length : UInt64) (extra : Int64) : Snapshot where
  html := "ab"
  origins := [spanOrigin length extra]

theorem wrapsAt_spanSnapshot {length : UInt64} {extra : Int64} {origin : Origin}
    (hmem : origin ∈ (spanSnapshot length extra).origins) (hspans : origin.Spans 1)
    (hleaves : ¬ origin.Exact 1) : (spanSnapshot length extra).wrapsAt 1 = true := by
  have hapart :
    ((spanSnapshot length extra).origins.filter fun origin => origin.length ≠ 0).Pairwise
      Origin.Apart := (List.pairwise_singleton _ _).filter _
  have hwraps := (Mapping.wrapsAt_iff hapart (by decide)).mpr ⟨origin, hmem, hspans, hleaves⟩
  rw [Snapshot.wrapsAt, Bool.and_eq_true]
  exact ⟨decide_eq_true (show 1 < "ab".length by decide), hwraps⟩

/-- The largest length that fits, with a correction that leads below the assigned string. -/
theorem snapshot_originAt_exact_negative :
    let snapshot := spanSnapshot 0xFFFFFFFFFFFFFFFE 2
    snapshot.wrapsAt 1 = false ∧ snapshot.originAt 1 = none := by
  intro snapshot
  obtain ⟨hwraps, hexact, -⟩ := snapshot_originAt_exact snapshot 1 (by decide) (by decide)
    (by decide)
  have hwords : snapshot.wrapsAt 1 = false := by
    rw [← Bool.not_eq_true, hwraps]
    intro ⟨origin, hmem, _, hleaves⟩
    obtain rfl := List.mem_singleton.mp hmem
    exact hleaves ⟨by decide, by decide, by decide⟩
  refine ⟨hwords, (hexact hwords).2.mpr ?_⟩
  intro origin hmem hspans
  obtain rfl := List.mem_singleton.mp hmem
  decide

/-- Two snapshots whose only span holds the second character. Over the integers the first leads to
    index 1 and the second to an index beyond every signed word, but both lookups leave the words,
    and the first finds nothing. -/
theorem snapshot_originAt_wraps :
    (∃ origin ∈ (spanSnapshot 0xFFFFFFFFFFFFFFFF 0).origins,
      origin.Spans 1 ∧ origin.exactIndex 1 = 1) ∧
    (spanSnapshot 0xFFFFFFFFFFFFFFFF 0).wrapsAt 1 = true ∧
    (spanSnapshot 0xFFFFFFFFFFFFFFFF 0).originAt 1 = none ∧
    (∃ origin ∈ (spanSnapshot 1 Int64.minValue).origins,
      origin.Spans 1 ∧ origin.exactIndex 1 = 0x8000000000000001) ∧
    (spanSnapshot 1 Int64.minValue).wrapsAt 1 = true := by
  have hapart : ((spanSnapshot 0xFFFFFFFFFFFFFFFF 0).origins.filter fun origin =>
      origin.length ≠ 0).Pairwise Origin.Apart := by decide
  have hmem := List.mem_singleton_self (spanOrigin 0xFFFFFFFFFFFFFFFF 0)
  have hlow := List.mem_singleton_self (spanOrigin 1 Int64.minValue)
  refine ⟨⟨_, hmem, by decide, by decide⟩, ?_, ?_, ⟨_, hlow, by decide, by decide⟩, ?_⟩
  · exact wrapsAt_spanSnapshot hmem (by decide) fun hexact => absurd hexact.stop (by decide)
  · exact Mapping.originAt_of_stop_too_large hapart hmem (by decide) (by decide)
  · exact wrapsAt_spanSnapshot hlow (by decide) fun hexact => absurd hexact.place (by decide)

end Provenance.Markup
