import Mathlib.Data.List.Basic
import Mathlib.Data.List.Nodup
import Mathlib.Logic.Relation
import Provenance.Proofs.Markup.Tree

/-! # Fragments as forests

Nodes may be appended under any number: one that is there, one that is yet to come, or the new
node's own. A node is linked exactly if its parent was there when it was appended, itself included.
So the lists of children are a forest: they are ascending, no node is in two of them, and a node
that is its own child stands alone.

Hence what can be reached from two siblings is apart, and a recursion that goes from elements to
their children meets no node twice.
-/

namespace Provenance.Markup.Fragment

/-- A fragment whose lists of children are a forest. -/
structure Forest (fragment : Fragment) : Prop where
  ascending : ∀ id, (fragment.children id).Pairwise (· < ·)
  inside : ∀ id, ∀ child ∈ fragment.children id, child < fragment.size
  /-- A node is linked if the parent it names is not after it. -/
  mem_iff : ∀ (id child : Nat),
    child ∈ fragment.children id ↔ fragment.parent? child = some id ∧ id ≤ child
  /-- The nodes that are their own children are those that were appended under themselves. -/
  own_iff : ∀ id, id ∈ fragment.children id ↔ fragment.parent? id = some id
  once : ∀ id other child, child ∈ fragment.children id → child ∈ fragment.children other →
    id = other
  root : ∀ id, Fragment.root ∉ fragment.children id
  alone : ∀ id, id ∈ fragment.children id → ∀ other, other ≠ id → id ∉ fragment.children other

variable {fragment : Fragment} {id child other : Nat}

/-! ## Putting a fragment together -/

theorem parent?_of_size_le (h : fragment.size ≤ id) : fragment.parent? id = none := by
  rw [parent?, get?_of_size_le fragment id h]
  rfl

theorem children_new (tag : String) (id : Nat) : (new tag).children id = [] := by
  cases id with
  | zero => rfl
  | succ id => rfl

theorem parent?_new (tag : String) (id : Nat) : (new tag).parent? id = none := by
  cases id with
  | zero => rfl
  | succ id => rfl

/-- What every append keeps. -/
structure Grown (fragment : Fragment) : Prop where
  ascending : ∀ id, (fragment.children id).Pairwise (· < ·)
  mem_iff : ∀ (id child : Nat),
    child ∈ fragment.children id ↔ fragment.parent? child = some id ∧ id ≤ child
  root : fragment.parent? Fragment.root = none
  filled : 0 < fragment.size

theorem Grown.append (hgrown : fragment.Grown) (parent : Nat) (kind : NodeKind) :
    (fragment.append parent kind).Grown where
  ascending id := by
    rw [children_append, List.pairwise_append]
    refine ⟨hgrown.ascending id, by split <;> simp, fun child hchild last hlast => ?_⟩
    have hparent := ((hgrown.mem_iff id child).mp hchild).1
    have hlt : child < fragment.size := by
      by_contra hge
      rw [parent?_of_size_le (Nat.le_of_not_lt hge)] at hparent
      cases hparent
    split at hlast
    · rwa [List.mem_singleton.mp hlast]
    · cases hlast
  mem_iff id child := by
    rw [children_append, parent?_append, List.mem_append, hgrown.mem_iff]
    by_cases hnew : child = fragment.size
    · subst hnew
      rw [parent?_of_size_le (Nat.le_refl _), if_pos rfl]
      by_cases hparent : parent = id <;> simp [hparent]
    · rw [if_neg hnew]
      by_cases hlinked : parent = id ∧ id ≤ fragment.size <;> simp [hlinked, hnew]
  root := by
    have hhold : Fragment.root ≠ fragment.size := Nat.ne_of_lt hgrown.filled
    rw [parent?_append, if_neg hhold]
    exact hgrown.root
  filled := by
    rw [size_append]
    exact Nat.succ_pos _

theorem Built.grown (hbuilt : fragment.Built) : fragment.Grown := by
  induction hbuilt with
  | new tag =>
      constructor
      case ascending => simp [children_new]
      case mem_iff => simp [children_new, parent?_new]
      case root => exact parent?_new tag _
      case filled => exact Nat.one_pos
  | element _ parent tag attributes ih => exact ih.append parent _
  | text _ parent content ih => exact ih.append parent _
  | comment _ parent content ih => exact ih.append parent _

theorem Built.forest (hbuilt : fragment.Built) : fragment.Forest := by
  have hgrown := hbuilt.grown
  have honce : ∀ id other child, child ∈ fragment.children id →
      child ∈ fragment.children other → id = other := by
    intro id other child hchild hchild'
    have hparent := ((hgrown.mem_iff id child).mp hchild).1
    rw [((hgrown.mem_iff other child).mp hchild').1] at hparent
    exact (Option.some.inj hparent).symm
  constructor
  case ascending => exact hgrown.ascending
  case inside => exact fun id child hchild => (hbuilt.linked id child hchild).2.1
  case mem_iff => exact hgrown.mem_iff
  case own_iff => exact fun id => (hgrown.mem_iff id id).trans (and_iff_left (Nat.le_refl id))
  case once => exact honce
  case root =>
    intro id hmem
    have hparent := ((hgrown.mem_iff id Fragment.root).mp hmem).1
    rw [hgrown.root] at hparent
    cases hparent
  case alone => exact fun id hself other hne hmem => hne (honce other id id hmem hself)

/-! ## What can be reached -/

/-- Whether a node is another one or can be reached from it. -/
def Under (fragment : Fragment) : Nat → Nat → Prop :=
  Relation.ReflTransGen fun id child => child ∈ fragment.children id

namespace Forest

variable (hforest : fragment.Forest)

include hforest

theorem le_of_under (hunder : fragment.Under id child) : id ≤ child := by
  induction hunder with
  | refl => exact Nat.le_refl id
  | tail _ hchild ih => exact Nat.le_trans ih ((hforest.mem_iff _ _).mp hchild).2

theorem lt_of_child (hown : id ∉ fragment.children id) (hchild : child ∈ fragment.children id) :
    id < child := by
  refine Nat.lt_of_le_of_ne ((hforest.mem_iff id child).mp hchild).2 ?_
  rintro rfl
  exact hown hchild

/-- A child of a node that is not its own child is not its own child either. -/
theorem not_own_of_child (hown : id ∉ fragment.children id)
    (hchild : child ∈ fragment.children id) : child ∉ fragment.children child := by
  intro hself
  obtain rfl := hforest.once id child child hchild hself
  exact hown hself

/-- No sibling can be reached from another. -/
theorem not_under_sibling (hown : id ∉ fragment.children id) (hchild : child ∈ fragment.children id)
    (hchild' : other ∈ fragment.children id) (hne : child ≠ other) :
    ¬ fragment.Under child other := by
  intro hunder
  obtain rfl | ⟨owner, hpath, hlast⟩ := Relation.ReflTransGen.cases_tail hunder
  · exact hne rfl
  · obtain rfl := hforest.once owner id other hlast hchild'
    exact Nat.not_le_of_gt (hforest.lt_of_child hown hchild) (hforest.le_of_under hpath)

/-- Nothing can be reached from two siblings: of two nodes above a third, which has one way up, one
    is above the other. -/
theorem apart (hown : id ∉ fragment.children id) (hchild : child ∈ fragment.children id)
    (hchild' : other ∈ fragment.children id) (hne : child ≠ other) {node : Nat}
    (hunder : fragment.Under child node) : ¬ fragment.Under other node := by
  intro hunder'
  have hunique : Relator.RightUnique (Function.swap fun id child => child ∈ fragment.children id) :=
    fun node first second hfirst hsecond => hforest.once first second node hfirst hsecond
  obtain hup | hup := Relation.ReflTransGen.total_of_right_unique hunique hunder.swap hunder'.swap
  · exact hforest.not_under_sibling hown hchild' hchild hne.symm hup.swap
  · exact hforest.not_under_sibling hown hchild hchild' hne hup.swap

end Forest

/-! ## Recursions -/

/-- The nodes that a recursion over a list of nodes visits, in order: it passes a node, or enters it
    if it is an element and goes on with its children before the rest of the list. -/
inductive Visits (fragment : Fragment) : (ids visited : List Nat) → Prop
  | nil : Visits fragment [] []
  | pass {id : Nat} {ids visited : List Nat} (hrest : Visits fragment ids visited) :
      Visits fragment (id :: ids) (id :: visited)
  | enter {id : Nat} {ids inner visited : List Nat} (htag : fragment.tag? id ≠ none)
      (hinside : Visits fragment (fragment.children id) inner)
      (hrest : Visits fragment ids visited) : Visits fragment (id :: ids) (id :: inner ++ visited)

namespace Visits

variable {ids more visited further : List Nat} {container : Nat}

theorem append (hvisits : fragment.Visits ids visited) (hvisits' : fragment.Visits more further) :
    fragment.Visits (ids ++ more) (visited ++ further) := by
  induction hvisits with
  | nil => exact hvisits'
  | pass _ ih => exact .pass ih
  | enter htag hinside _ _ ih =>
      rw [List.append_assoc]
      exact .enter htag hinside ih

theorem exists_under (hvisits : fragment.Visits ids visited) :
    ∀ node ∈ visited, ∃ id ∈ ids, fragment.Under id node := by
  induction hvisits with
  | nil => exact List.forall_mem_nil _
  | @pass id ids visited _ ih =>
      refine List.forall_mem_cons.mpr ⟨⟨id, List.mem_cons_self, .refl⟩, fun node hmem => ?_⟩
      obtain ⟨top, htop, hunder⟩ := ih node hmem
      exact ⟨top, List.mem_cons_of_mem id htop, hunder⟩
  | @enter id ids inner visited _ _ _ ihInside ih =>
      refine List.forall_mem_append.mpr
        ⟨List.forall_mem_cons.mpr ⟨⟨id, List.mem_cons_self, .refl⟩, fun node hmem => ?_⟩,
          fun node hmem => ?_⟩
      · obtain ⟨child, hchild, hunder⟩ := ihInside node hmem
        exact ⟨id, List.mem_cons_self, hunder.head hchild⟩
      · obtain ⟨top, htop, hunder⟩ := ih node hmem
        exact ⟨top, List.mem_cons_of_mem id htop, hunder⟩

theorem reached (hvisits : fragment.Visits ids visited)
    (hids : ∀ id ∈ ids, fragment.Below container id) :
    ∀ node ∈ visited, fragment.Below container node := by
  induction hvisits with
  | nil => exact List.forall_mem_nil _
  | pass _ ih =>
      obtain ⟨hid, hids⟩ := List.forall_mem_cons.mp hids
      exact List.forall_mem_cons.mpr ⟨hid, ih hids⟩
  | enter htag _ _ ihInside ih =>
      obtain ⟨hid, hids⟩ := List.forall_mem_cons.mp hids
      exact List.forall_mem_append.mpr
        ⟨List.forall_mem_cons.mpr ⟨hid, ihInside fun child hchild => .step hid htag hchild⟩,
          ih hids⟩

/-- From nodes that are apart and not their own children no node is visited twice. -/
theorem nodup (hforest : fragment.Forest) (hvisits : fragment.Visits ids visited)
    (hapart : ids.Pairwise fun id other => ∀ node, fragment.Under id node →
      ¬ fragment.Under other node)
    (hown : ∀ id ∈ ids, id ∉ fragment.children id) : visited.Nodup := by
  induction hvisits with
  | nil => exact List.nodup_nil
  | @pass id ids visited hrest ih =>
      obtain ⟨hfirst, hapart⟩ := List.pairwise_cons.mp hapart
      obtain ⟨-, hown⟩ := List.forall_mem_cons.mp hown
      refine List.nodup_cons.mpr ⟨fun hmem => ?_, ih hapart hown⟩
      obtain ⟨top, htop, hpath⟩ := hrest.exists_under id hmem
      exact hfirst top htop id .refl hpath
  | @enter id ids inner visited _ hinside hrest ihInside ih =>
      obtain ⟨hfirst, hapart⟩ := List.pairwise_cons.mp hapart
      obtain ⟨hself, hown⟩ := List.forall_mem_cons.mp hown
      have hinner : inner.Nodup := by
        refine ihInside ((hforest.ascending id).imp_of_mem fun hchild' hchild'' hlt node hpath =>
          ?_) fun child hchild => hforest.not_own_of_child hself hchild
        exact hforest.apart hself hchild' hchild'' (Nat.ne_of_lt hlt) hpath
      have habove : ∀ node ∈ inner, id < node := by
        intro node hmem
        obtain ⟨child, hchild, hpath⟩ := hinside.exists_under node hmem
        exact Nat.lt_of_lt_of_le (hforest.lt_of_child hself hchild) (hforest.le_of_under hpath)
      have hunder : ∀ node ∈ id :: inner, fragment.Under id node := by
        refine List.forall_mem_cons.mpr ⟨.refl, fun node hmem => ?_⟩
        obtain ⟨child, hchild, hpath⟩ := hinside.exists_under node hmem
        exact hpath.head hchild
      refine List.nodup_append.mpr ⟨List.nodup_cons.mpr ⟨fun hmem => ?_, hinner⟩,
        ih hapart hown, ?_⟩
      · exact Nat.lt_irrefl id (habove id hmem)
      · rintro node hmem _ hmem' rfl
        obtain ⟨top, htop, hpath⟩ := hrest.exists_under node hmem'
        exact hfirst top htop node (hunder node hmem) hpath

/-- A recursion over the children of a node that is not its own child visits nodes that can be
    reached, and each at most once. -/
theorem of_children (hbuilt : fragment.Built) (hown : container ∉ fragment.children container)
    (hvisits : fragment.Visits (fragment.children container) visited) :
    visited.Nodup ∧ ∀ node ∈ visited, fragment.Below container node := by
  have hforest := hbuilt.forest
  refine ⟨hvisits.nodup hforest ?_ fun child hchild => hforest.not_own_of_child hown hchild,
    hvisits.reached fun child => .child⟩
  exact (hforest.ascending container).imp_of_mem fun hmem hchild' hlt node hunder =>
    hforest.apart hown hmem hchild' (Nat.ne_of_lt hlt) hunder

end Visits

end Provenance.Markup.Fragment
