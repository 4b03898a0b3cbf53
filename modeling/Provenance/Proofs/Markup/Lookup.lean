import Mathlib.Data.List.Pairwise
import Provenance.Markup.Mapping

/-! # Looking up an index

Halving finds how many spans start at or before an index, so a lookup consults the last of them
and no other. If no two spans overlap, that is the only one that can cover the index, whatever
order the spans were given in.
-/

namespace Provenance.Markup

namespace Mapping

/-- Halving a window of spans with rising starts: the result lies in the window and parts the
    spans that start at or before the index from the others. -/
theorem search_spec {spans : Array Origin} (index : Nat)
    (hmono : ∀ (i j : Nat) (a b : Origin), i ≤ j → spans[i]? = some a → spans[j]? = some b →
      a.start.toNat ≤ b.start.toNat) (count low : Nat) (hsize : low + count ≤ spans.size)
    (hbelow : ∀ i (a : Origin), i < low → spans[i]? = some a → a.start.toNat ≤ index)
    (habove : ∀ i (a : Origin), low + count ≤ i → spans[i]? = some a → index < a.start.toNat) :
    search spans index count low ≤ spans.size ∧
      ∀ i (a : Origin), spans[i]? = some a →
        (i < search spans index count low ↔ a.start.toNat ≤ index) := by
  fun_induction search spans index count low with
  | case1 low =>
      refine ⟨hsize, fun i a ha => ⟨fun hi => hbelow i a hi ha, fun hle => ?_⟩⟩
      refine Nat.lt_of_not_le fun hi => ?_
      have hlt := habove i a hi ha
      omega
  | case2 count low half span hspan hle ih =>
      have hhalf : half = (count + 1) / 2 := rfl
      refine ih (by omega) (fun i a hi ha => ?_) fun i a hi ha => habove i a (by omega) ha
      have hstart := hmono i (low + half) a span (by omega) ha hspan
      omega
  | case3 count low half span hspan hgt ih =>
      have hhalf : half = (count + 1) / 2 := rfl
      refine ih (by omega) hbelow fun i a hi ha => ?_
      have hstart := hmono (low + half) i span a (by omega) hspan ha
      omega
  | case4 count low half hnone =>
      have hhalf : half = (count + 1) / 2 := rfl
      have hpast := Array.getElem?_eq_none_iff.mp hnone
      omega

end Mapping

/-- Whether a span ends at or before the start of another. -/
def Origin.Before (a b : Origin) : Prop :=
  a.start.toNat + a.length.toNat ≤ b.start.toNat

/-- Whether two spans do not overlap. -/
def Origin.Apart (a b : Origin) : Prop := a.Before b ∨ b.Before a

instance : Std.Symm Origin.Apart := ⟨fun _ _ => Or.symm⟩

instance (a b : Origin) : Decidable (a.Apart b) :=
  inferInstanceAs (Decidable (a.start.toNat + a.length.toNat ≤ b.start.toNat ∨
    b.start.toNat + b.length.toNat ≤ a.start.toNat))

/-- What an index resolves to in a span, if the span covers it. -/
def Origin.resolve? (origin : Origin) (index : Nat) : Option ResolvedOrigin :=
  if origin.covers index then
    (origin.assignedIndex index).map fun charIndex => { origin, charIndex }
  else none

theorem Origin.resolve?_eq_some_iff {origin : Origin} {index : Nat} {resolved : ResolvedOrigin} :
    origin.resolve? index = some resolved ↔ resolved.origin = origin ∧
      origin.covers index = true ∧ origin.assignedIndex index = some resolved.charIndex := by
  unfold resolve?
  split
  · rename_i hcovers
    rw [Option.map_eq_some_iff]
    constructor
    · rintro ⟨charIndex, hindex, rfl⟩
      exact ⟨rfl, hcovers, hindex⟩
    · rintro ⟨rfl, -, hindex⟩
      exact ⟨_, hindex, rfl⟩
  · rename_i huncovered
    constructor
    · nofun
    · rintro ⟨-, hcovers, -⟩
      exact absurd hcovers huncovered

namespace Mapping

variable {origins spans sorted : List Origin} {origin : Origin} {index : Nat}

/-- In a list with rising starts, the number of spans that start at or before an index parts the
    list at the index. -/
theorem startedBy_spec (hsorted : spans.Pairwise fun a b => a.start.toNat ≤ b.start.toNat)
    (index : Nat) :
    startedBy ⟨spans.toArray⟩ index ≤ spans.length ∧
      ∀ i (a : Origin), spans[i]? = some a →
        (i < startedBy ⟨spans.toArray⟩ index ↔ a.start.toNat ≤ index) := by
  have hmono : ∀ (i j : Nat) (a b : Origin), i ≤ j → spans.toArray[i]? = some a →
      spans.toArray[j]? = some b → a.start.toNat ≤ b.start.toNat := by
    intro i j a b hij ha hb
    rw [List.getElem?_toArray] at ha hb
    obtain ⟨hi, rfl⟩ := List.getElem?_eq_some_iff.mp ha
    obtain ⟨hj, rfl⟩ := List.getElem?_eq_some_iff.mp hb
    rcases Nat.lt_or_eq_of_le hij with hlt | rfl
    · exact List.pairwise_iff_getElem.mp hsorted i j hi hj hlt
    · exact Nat.le_refl _
  have hspec := search_spec index hmono spans.toArray.size 0 (by omega)
    (fun i a hi => absurd hi (Nat.not_lt_zero i))
    fun i a hi ha => by rw [Array.getElem?_eq_none (by omega)] at ha; cases ha
  simpa only [startedBy, List.getElem?_toArray, List.size_toArray] using hspec

/-- A lookup consults the last span that starts at or before the index. -/
theorem consulted?_of_rising (hsorted : spans.Pairwise fun a b => a.start.toNat ≤ b.start.toNat)
    (index : Nat) :
    consulted? ⟨spans.toArray⟩ index = (spans.filter (·.start.toNat ≤ index)).getLast? := by
  obtain ⟨hsize, hspec⟩ := startedBy_spec hsorted index
  unfold consulted?
  generalize startedBy ⟨spans.toArray⟩ index = count at hsize hspec
  have hfront : ∀ span ∈ spans.take count, decide (span.start.toNat ≤ index) = true := by
    intro span hmem
    obtain ⟨i, hi⟩ := List.mem_iff_getElem?.mp hmem
    rw [List.getElem?_take] at hi
    split at hi
    · rename_i hlt
      exact decide_eq_true ((hspec i span hi).mp hlt)
    · cases hi
  have hback : ∀ span ∈ spans.drop count, ¬ decide (span.start.toNat ≤ index) = true := by
    intro span hmem
    obtain ⟨i, hi⟩ := List.mem_iff_getElem?.mp hmem
    rw [List.getElem?_drop] at hi
    have hpast := (hspec _ span hi).not.mp (by omega)
    simpa using hpast
  have hstarted : spans.filter (·.start.toNat ≤ index) = spans.take count := by
    calc spans.filter (·.start.toNat ≤ index)
        = (spans.take count ++ spans.drop count).filter (·.start.toNat ≤ index) := by
          rw [List.take_append_drop]
      _ = spans.take count := by
          rw [List.filter_append, List.filter_eq_self.mpr hfront,
            List.filter_eq_nil_iff.mpr hback, List.append_nil]
  rw [hstarted, List.getLast?_take]
  cases count with
  | zero => rfl
  | succ count =>
      have hlast : spans[count]? = some spans[count] := List.getElem?_eq_getElem (by omega)
      simp [hlast]

/-- A lookup asks the span that it consults, and no other. -/
theorem originAt_eq_consulted? (mapping : Mapping) (index : Nat) :
    mapping.originAt index = (mapping.consulted? index).bind (·.resolve? index) := by
  unfold originAt consulted?
  cases mapping.startedBy index with
  | zero => rfl
  | succ count =>
      cases hspan : mapping.spans[count]? with
      | none => simp [hspan]
      | some origin => simp [hspan, Origin.resolve?]

section Moved

variable {move : Origin → Origin} (hstart : ∀ origin, (move origin).start = origin.start)

include hstart

theorem search_map (spans : Array Origin) (index count low : Nat) :
    search (spans.map move) index count low = search spans index count low := by
  fun_induction search spans index count low with
  | case1 low => rw [search]
  | case2 count low half span hspan hle ih =>
      rw [search, Array.getElem?_map, hspan]
      simp only [Option.map_some, hstart, if_pos hle]
      exact ih
  | case3 count low half span hspan hgt ih =>
      rw [search, Array.getElem?_map, hspan]
      simp only [Option.map_some, hstart, if_neg hgt]
      exact ih
  | case4 count low half hnone =>
      rw [search, Array.getElem?_map, hnone]
      rfl

/-- Where spans are changed but neither moved nor resized, a lookup consults the same one. -/
theorem consulted?_map (hlength : ∀ origin, (move origin).length = origin.length)
    (origins : List Origin) (index : Nat) :
    (ofOrigins (origins.map move)).consulted? index =
      ((ofOrigins origins).consulted? index).map move := by
  let le : Origin → Origin → Bool := fun a b => a.start ≤ b.start
  let kept : Origin → Bool := fun origin => origin.length ≠ 0
  have hkept : kept ∘ move = kept := funext fun origin => by
    simp only [kept, Function.comp_apply, hlength]
  have hspans : (ofOrigins (origins.map move)).spans = (ofOrigins origins).spans.map move := by
    have hsorted := List.map_mergeSort (l := origins.filter kept) (f := move)
      fun a _ b _ => show le a b = le (move a) (move b) by simp only [le, hstart]
    show (((origins.map move).filter kept).mergeSort le).toArray = _
    rw [List.filter_map, hkept, ← hsorted, ← List.map_toArray]
    rfl
  have hcount : (ofOrigins (origins.map move)).startedBy index =
      (ofOrigins origins).startedBy index := by
    rw [startedBy, hspans, Array.size_map, search_map hstart]
    rfl
  unfold consulted?
  rw [hcount, hspans]
  cases (ofOrigins origins).startedBy index with
  | zero => rfl
  | succ count => exact Array.getElem?_map

end Moved

theorem originAt_of_rising (hsorted : spans.Pairwise fun a b => a.start.toNat ≤ b.start.toNat)
    (index : Nat) :
    originAt ⟨spans.toArray⟩ index =
      (spans.filter (·.start.toNat ≤ index)).getLast?.bind (·.resolve? index) := by
  rw [originAt_eq_consulted?, consulted?_of_rising hsorted]

/-- The spans of some origins in the order of their starts. Empty ones are left out, and spans
    that start together stay in the order that they were given in. -/
structure InOrder (origins sorted : List Origin) : Prop where
  perm : sorted.Perm (origins.filter fun origin => origin.length ≠ 0)
  rising : sorted.Pairwise fun a b => a.start.toNat ≤ b.start.toNat
  stable : ∀ start, sorted.filter (fun origin => origin.start = start) =
    (origins.filter fun origin => origin.length ≠ 0).filter fun origin => origin.start = start

theorem exists_inOrder (origins : List Origin) :
    ∃ sorted, InOrder origins sorted ∧ ofOrigins origins = ⟨sorted.toArray⟩ := by
  let le : Origin → Origin → Bool := fun a b => a.start ≤ b.start
  let kept := origins.filter fun origin => origin.length ≠ 0
  have htrans : ∀ a b c, le a b = true → le b c = true → le a c = true := by
    intro a b c hab hbc
    simp only [le, decide_eq_true_eq] at hab hbc ⊢
    exact UInt64.le_trans hab hbc
  have htotal : ∀ a b, (le a b || le b a) = true := by
    intro a b
    simp only [le, Bool.or_eq_true, decide_eq_true_eq]
    exact UInt64.le_total _ _
  have hperm := List.mergeSort_perm kept le
  refine ⟨kept.mergeSort le, ⟨hperm, ?_, fun start => ?_⟩, rfl⟩
  · refine (List.pairwise_mergeSort htrans htotal kept).imp fun hab => ?_
    exact UInt64.le_iff_toNat_le.mp (of_decide_eq_true hab)
  · -- Spans that start together are in order already, so sorting keeps them as a sublist.
    let together : Origin → Bool := fun origin => origin.start = start
    have hordered : (kept.filter together).Pairwise fun a b => le a b = true := by
      refine List.pairwise_of_forall_mem_list fun a ha b hb => ?_
      have hstart : a.start = start := of_decide_eq_true (List.mem_filter.mp ha).2
      have hsame : b.start = start := of_decide_eq_true (List.mem_filter.mp hb).2
      simp only [le, hstart, hsame, decide_eq_true_eq]
      exact UInt64.le_refl _
    have hsub := (List.sublist_mergeSort htrans htotal hordered List.filter_sublist).filter together
    simp only [List.filter_filter, Bool.and_self] at hsub
    exact (hsub.eq_of_length (hperm.filter together).length_eq.symm).symm

theorem lt_of_covers (hcovers : origin.covers index = true) :
    origin.start.toNat ≤ index ∧ index < origin.start.toNat + origin.length.toNat := by
  simp only [Origin.covers, Origin.stop, UInt64.toNat_add, Bool.and_eq_true,
    decide_eq_true_eq] at hcovers
  exact ⟨hcovers.1, Nat.lt_of_lt_of_le hcovers.2 (Nat.mod_le _ _)⟩

theorem covers_of_lt (hfits : origin.start.toNat + origin.length.toNat < UInt64.size)
    (hstart : origin.start.toNat ≤ index)
    (hstop : index < origin.start.toNat + origin.length.toNat) : origin.covers index = true := by
  have hstopWord : origin.stop.toNat = origin.start.toNat + origin.length.toNat := by
    rw [Origin.stop, UInt64.toNat_add]
    exact Nat.mod_eq_of_lt hfits
  simp only [Origin.covers, hstopWord, Bool.and_eq_true, decide_eq_true_eq]
  exact ⟨hstart, hstop⟩

/-- The last span that starts at or before an index starts at or behind every other such span. -/
theorem exists_last_of_rising (hsorted : spans.Pairwise fun a b => a.start.toNat ≤ b.start.toNat)
    (hmem : origin ∈ spans) (hstart : origin.start.toNat ≤ index) :
    ∃ last ∈ spans, (spans.filter (·.start.toNat ≤ index)).getLast? = some last ∧
      last.start.toNat ≤ index ∧ origin.start.toNat ≤ last.start.toNat := by
  have hstarted : origin ∈ spans.filter (·.start.toNat ≤ index) :=
    List.mem_filter.mpr ⟨hmem, decide_eq_true hstart⟩
  cases hlast : (spans.filter (·.start.toNat ≤ index)).getLast? with
  | none =>
      rw [List.getLast?_eq_none_iff.mp hlast] at hstarted
      cases hstarted
  | some last =>
      obtain ⟨hin, hle⟩ := List.mem_filter.mp (List.mem_of_getLast? hlast)
      refine ⟨last, hin, rfl, of_decide_eq_true hle, ?_⟩
      have hrising := hsorted.filter (·.start.toNat ≤ index)
      obtain ⟨front, hfront⟩ := List.getLast?_eq_some_iff.mp hlast
      rw [hfront] at hstarted hrising
      rcases List.mem_append.mp hstarted with hbefore | hsame
      · exact (List.pairwise_append.mp hrising).2.2 origin hbefore last (List.mem_singleton_self _)
      · exact Nat.le_of_eq (by rw [List.mem_singleton.mp hsame])

/-- Among spans that do not overlap, the one that an index lies in is consulted. -/
theorem consulted?_of_apart
    (hspans : (origins.filter fun origin => origin.length ≠ 0).Pairwise Origin.Apart)
    (hmem : origin ∈ origins) (hstart : origin.start.toNat ≤ index)
    (hstop : index < origin.start.toNat + origin.length.toNat) :
    (ofOrigins origins).consulted? index = some origin := by
  obtain ⟨sorted, hsorted, hmapping⟩ := exists_inOrder origins
  have hkept : origin ∈ sorted := by
    rw [hsorted.perm.mem_iff, List.mem_filter]
    refine ⟨hmem, decide_eq_true fun hzero => ?_⟩
    simp only [hzero, UInt64.toNat_zero] at hstop
    omega
  obtain ⟨last, hin, hlast, hstarted, hle⟩ := exists_last_of_rising hsorted.rising hkept hstart
  rw [hmapping, consulted?_of_rising hsorted.rising, hlast]
  -- The last span starts within the one that the index lies in, and is not empty.
  suffices origin = last by rw [this]
  by_contra hne
  have hlength : last.length ≠ 0 := by
    simpa using (List.mem_filter.mp (hsorted.perm.mem_iff.mp hin)).2
  have hpositive : 0 < last.length.toNat :=
    Nat.pos_of_ne_zero fun hzero => hlength (UInt64.toNat_inj.mp hzero)
  have hapart : sorted.Pairwise Origin.Apart := (hsorted.perm.pairwise_iff Or.symm).mpr hspans
  rcases hapart.forall hkept hin hne with hbefore | hbefore
  · rw [Origin.Before] at hbefore
    omega
  · rw [Origin.Before] at hbefore
    omega

/-- Among spans that do not overlap, the lookup finds the one that covers an index. -/
theorem originAt_of_apart
    (hapart : (origins.filter fun origin => origin.length ≠ 0).Pairwise Origin.Apart)
    (hmem : origin ∈ origins) (hcovers : origin.covers index = true) :
    (ofOrigins origins).originAt index = origin.resolve? index := by
  obtain ⟨hstart, hstop⟩ := lt_of_covers hcovers
  rw [originAt_eq_consulted?, consulted?_of_apart hapart hmem hstart hstop, Option.bind_some]

/-- The lookup finds the span that covers an index. -/
theorem originAt_of_covers (hsorted : origins.Pairwise Origin.Before) (hmem : origin ∈ origins)
    (hcovers : origin.covers index = true) :
    (ofOrigins origins).originAt index =
      (origin.assignedIndex index).map fun charIndex => { origin, charIndex } := by
  rw [originAt_of_apart ((hsorted.filter _).imp Or.inl) hmem hcovers, Origin.resolve?,
    if_pos hcovers]

theorem mem_of_spans {i : Nat} (hget : (ofOrigins origins).spans[i]? = some origin) :
    origin ∈ origins := by
  rw [ofOrigins, List.getElem?_toArray] at hget
  have hsorted := (List.mergeSort_perm _ _).mem_iff.mp (List.mem_of_getElem? hget)
  exact (List.mem_filter.mp hsorted).1

theorem mem_of_consulted? (h : (ofOrigins origins).consulted? index = some origin) :
    origin ∈ origins := by
  unfold consulted? at h
  split at h
  · cases h
  · exact mem_of_spans h

/-- What the lookup finds is a span that covers the index. -/
theorem exists_of_originAt {resolved : ResolvedOrigin}
    (h : (ofOrigins origins).originAt index = some resolved) :
    resolved.origin ∈ origins ∧ resolved.origin.covers index = true ∧
      resolved.origin.assignedIndex index = some resolved.charIndex := by
  unfold originAt at h
  split at h
  · cases h
  · split at h
    · cases h
    · rename_i origin hget
      split at h
      · rename_i hcovers
        obtain ⟨charIndex, hindex, rfl⟩ := Option.map_eq_some_iff.mp h
        exact ⟨mem_of_spans hget, hcovers, hindex⟩
      · cases h

/-- The lookup finds nothing where no span covers the index. -/
theorem originAt_of_not_covers (hnone : ∀ origin ∈ origins, origin.covers index = false) :
    (ofOrigins origins).originAt index = none := by
  unfold originAt
  split
  · rfl
  · split
    · rfl
    · rename_i hget
      simp only [hnone _ (mem_of_spans hget), Bool.false_eq_true, if_false]

section Apart

variable (hapart : (origins.filter fun origin => origin.length ≠ 0).Pairwise Origin.Apart)

include hapart

theorem originAt_eq_some_iff {resolved : ResolvedOrigin} :
    (ofOrigins origins).originAt index = some resolved ↔
      resolved.origin ∈ origins ∧ resolved.origin.resolve? index = some resolved := by
  constructor
  · intro h
    obtain ⟨hmem, hcovers, hindex⟩ := exists_of_originAt h
    exact ⟨hmem, Origin.resolve?_eq_some_iff.mpr ⟨rfl, hcovers, hindex⟩⟩
  · rintro ⟨hmem, hresolve⟩
    obtain ⟨-, hcovers, -⟩ := Origin.resolve?_eq_some_iff.mp hresolve
    rw [originAt_of_apart hapart hmem hcovers, hresolve]

theorem originAt_eq_findSome? :
    (ofOrigins origins).originAt index = origins.findSome? (·.resolve? index) := by
  cases hscan : origins.findSome? (·.resolve? index) with
  | none =>
      rw [Option.eq_none_iff_forall_ne_some]
      intro resolved h
      obtain ⟨hmem, hresolve⟩ := (originAt_eq_some_iff hapart).mp h
      rw [List.findSome?_eq_none_iff.mp hscan _ hmem] at hresolve
      cases hresolve
  | some resolved =>
      obtain ⟨front, origin, back, hsplit, hresolve, -⟩ := List.findSome?_eq_some_iff.mp hscan
      obtain ⟨rfl, -, -⟩ := Origin.resolve?_eq_some_iff.mp hresolve
      have hmem : resolved.origin ∈ origins := by simp [hsplit]
      exact (originAt_eq_some_iff hapart).mpr ⟨hmem, hresolve⟩

theorem originAt_of_perm {other : List Origin} (hperm : other.Perm origins) :
    (ofOrigins other).originAt index = (ofOrigins origins).originAt index := by
  have hother : (other.filter fun origin => origin.length ≠ 0).Pairwise Origin.Apart :=
    ((hperm.filter _).pairwise_iff Or.symm).mpr hapart
  refine Option.ext fun resolved => ?_
  rw [originAt_eq_some_iff hapart, originAt_eq_some_iff hother, hperm.mem_iff]

end Apart

/-- A lookup consults the last span that starts at or before the index. If the spans do not
    overlap and end within a word, it gives what a scan of the list gives, in whatever order the
    list is: the one span that the index lies in, if that leads to an assigned index. -/
theorem originAt_in_any_order (origins : List Origin) (index : Nat) :
    (∃ sorted, InOrder origins sorted ∧ (ofOrigins origins).originAt index =
      (sorted.filter (·.start.toNat ≤ index)).getLast?.bind (·.resolve? index)) ∧
    ((origins.filter fun origin => origin.length ≠ 0).Pairwise Origin.Apart →
      (∀ origin ∈ origins, origin.length ≠ 0 →
        origin.start.toNat + origin.length.toNat < UInt64.size) →
      (∀ resolved, (ofOrigins origins).originAt index = some resolved ↔
        resolved.origin ∈ origins ∧ resolved.origin.start.toNat ≤ index ∧
          index < resolved.origin.start.toNat + resolved.origin.length.toNat ∧
            resolved.origin.assignedIndex index = some resolved.charIndex) ∧
      (ofOrigins origins).originAt index = origins.findSome? (·.resolve? index) ∧
      ∀ other, other.Perm origins →
        (ofOrigins other).originAt index = (ofOrigins origins).originAt index) := by
  constructor
  · obtain ⟨sorted, hsorted, hmapping⟩ := exists_inOrder origins
    exact ⟨sorted, hsorted, hmapping ▸ originAt_of_rising hsorted.rising index⟩
  · intro hapart hfits
    refine ⟨fun resolved => ?_, originAt_eq_findSome? hapart, fun other => originAt_of_perm hapart⟩
    rw [originAt_eq_some_iff hapart, Origin.resolve?_eq_some_iff]
    constructor
    · rintro ⟨hmem, -, hcovers, hindex⟩
      obtain ⟨hstart, hstop⟩ := lt_of_covers hcovers
      exact ⟨hmem, hstart, hstop, hindex⟩
    · rintro ⟨hmem, hstart, hstop, hindex⟩
      refine ⟨hmem, rfl, covers_of_lt (hfits _ hmem ?_) hstart hstop, hindex⟩
      intro hzero
      rw [hzero] at hstop
      exact absurd hstop (Nat.not_lt_of_le hstart)

/-- Two spans in the wrong order, with an empty one at the start of the later one. -/
theorem originAt_in_any_order_shuffled :
    let later : Origin :=
      { action := .textValue, start := 4, length := 2, extra := 4, value := "ab" }
    let empty : Origin := { action := .replaceContents, start := 4, value := "" }
    let first : Origin := { action := .textValue, start := 0, length := 3, value := "abc" }
    (ofOrigins [later, empty, first]).originAt 5 = some ⟨later, 1⟩ ∧
      (ofOrigins [later, empty, first]).originAt 3 = none ∧
      (ofOrigins [first, later, empty]).originAt 5 = some ⟨later, 1⟩ := by
  intro later empty first
  have hapart : ([later, empty, first].filter fun origin => origin.length ≠ 0).Pairwise
      Origin.Apart := by decide
  have hfits : ∀ origin ∈ [later, empty, first], origin.length ≠ 0 →
      origin.start.toNat + origin.length.toNat < UInt64.size := by decide
  obtain ⟨hiff, -, hperm⟩ := (originAt_in_any_order [later, empty, first] 5).2 hapart hfits
  obtain ⟨-, hscan, -⟩ := (originAt_in_any_order [later, empty, first] 3).2 hapart hfits
  have hfound := (hiff ⟨later, 1⟩).mpr ⟨by decide, by decide, by decide, by decide⟩
  have hmoved := hperm [first, later, empty] (by decide)
  exact ⟨hfound, hscan.trans (by decide), hmoved.trans hfound⟩

end Mapping

end Provenance.Markup
