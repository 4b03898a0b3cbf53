import Provenance.Json.Decode
import Provenance.Proofs.Json.RoundTrip

/-! # Written structures are read back

A structure is written as an object with those of its fields that have a value. What the
reader finds for each field is what was written for it, or that nothing was.
-/

namespace Provenance.Json

theorem memberTrees_eq_map (members : List (String × Json)) :
    memberTrees members = members.map fun member => (member.1, member.2.toTree) := by
  induction members with
  | nil => rfl
  | cons member members ih => exact congrArg (_ :: ·) ih

theorem membersPlain_iff {members : List (String × Json)} :
    membersPlain members ↔ ∀ member ∈ members, member.2.isPlain := by
  induction members with
  | nil => simp [membersPlain]
  | cons member members ih => simp [membersPlain, ih]

theorem isPlain_of_mem {members : List (String × Json)} {name : String} {value : Json}
    (hplain : (obj members).isPlain) (hmem : (name, value) ∈ members) : value.isPlain :=
  membersPlain_iff.mp (Bool.and_eq_true_iff.mp hplain).2 (name, value) hmem

theorem mem_field? {name : String} {content : Option Json} {value : Json} :
    (name, value) ∈ field? name content ↔ content = some value := by
  cases content <;> simp [field?, eq_comm]

/-- Those of the fields that have a value. -/
def given (fields : List (String × Option Json)) : List (String × Json) :=
  fields.flatMap fun field => field? field.1 field.2

namespace Decode

/-- What there is for a field that was written, or left out. -/
def Slot.ofField : Option Json → Slot
  | some value => .given value.toTree
  | none => .absent

section Slots

variable {fields : List (String × Option Json)} {name : String}

theorem filter_given_of_not_mem (hmissing : name ∉ fields.map Prod.fst) :
    (memberTrees (given fields)).filter (·.1 == name) = [] := by
  rw [memberTrees_eq_map, List.filter_eq_nil_iff]
  intro tree hmem hnamed
  obtain ⟨⟨written, value⟩, hlisted, rfl⟩ := List.mem_map.mp hmem
  obtain ⟨⟨field, content⟩, hinside, hholds⟩ := List.mem_flatMap.mp hlisted
  apply hmissing
  cases content with
  | none => cases hholds
  | some content =>
      cases List.mem_singleton.mp hholds
      exact List.mem_map.mpr ⟨_, hinside, beq_iff_eq.mp hnamed⟩

theorem slot_given {value : Option Json} (hnodup : (fields.map Prod.fst).Nodup)
    (hmem : (name, value) ∈ fields) :
    slot (memberTrees (given fields)) name = some (Slot.ofField value) := by
  induction fields with
  | nil => cases hmem
  | cons field fields ih =>
      obtain ⟨hmissing, hnodup⟩ := List.nodup_cons.mp hnodup
      have hsplit : memberTrees (given (field :: fields)) =
          memberTrees (field? field.1 field.2) ++ memberTrees (given fields) := by
        simp [memberTrees_eq_map, given]
      unfold slot
      rw [hsplit, List.filter_append]
      -- the names are distinct: only the first field or only one of the others can be meant
      obtain rfl | hlater := List.mem_cons.mp hmem
      · rw [filter_given_of_not_mem hmissing]
        cases value with
        | none => rfl
        | some value => simp [field?, memberTrees, Slot.ofField]
      · have hother : field.1 ≠ name := by
          rintro rfl
          exact hmissing (List.mem_map.mpr ⟨_, hlater, rfl⟩)
        have hskipped : (memberTrees (field? field.1 field.2)).filter (·.1 == name) = [] := by
          cases field.2 with
          | none => rfl
          | some value => simp [field?, memberTrees, hother]
        rw [hskipped, List.nil_append]
        exact ih hnodup hlater

/-- The reader of a structure finds all its fields as they were written. -/
theorem slots_given (fields : List (String × Option Json)) (hnodup : (fields.map Prod.fst).Nodup) :
    slots (fields.map Prod.fst) (obj (given fields)).toTree =
      some (fields.map fun field => Slot.ofField field.2) := by
  have heach : ∀ part ⊆ fields, (part.map Prod.fst).mapM (slot (memberTrees (given fields))) =
      some (part.map fun field => Slot.ofField field.2) := by
    intro part hinside
    induction part with
    | nil => rfl
    | cons field part ih =>
        rw [List.cons_subset] at hinside
        rw [List.map_cons, List.mapM_cons, slot_given hnodup hinside.1, ih hinside.2]
        rfl
  exact heach fields (List.Subset.refl fields)

end Slots

section Values

variable {α : Type} {decode : Decoder α}

/-- The decoder gives back a value from what was written for it, which is not null. -/
structure Returns (decode : Decoder α) (written : Json) (value : α) : Prop where
  decoded : decode written.toTree = some value
  notNull : written.toTree ≠ .null

@[simp] theorem required_ofField (value : Json) :
    required decode (Slot.ofField (some value)) = decode value.toTree := rfl

@[simp] theorem withDefault_ofField (default : α) (value : Json) :
    withDefault default decode (Slot.ofField (some value)) = decode value.toTree := rfl

theorem nullable_of_returns {written : Json} {value : α} (hreturns : Returns decode written value) :
    nullable decode written.toTree = some (some value) := by
  unfold nullable
  split
  · rename_i hnull
    exact absurd hnull hreturns.notNull
  · rw [hreturns.decoded]
    rfl

theorem optional_of_returns {encode : α → Json} {value : Option α}
    (hreturns : ∀ a ∈ value, Returns decode (encode a) a) :
    optional decode (Slot.ofField (value.map encode)) = some value := by
  cases value with
  | none => rfl
  | some a => exact nullable_of_returns (hreturns a rfl)

theorem maybeNull_of_returns {encode : α → Json} {value : Option α}
    (hreturns : ∀ a ∈ value, Returns decode (encode a) a) :
    maybeNull decode (Slot.ofField (value.map encode)) = some value := by
  cases value with
  | none => rfl
  | some a => exact nullable_of_returns (hreturns a rfl)

theorem natUpTo_nat {bound n : Nat} (hle : n ≤ bound) :
    natUpTo bound (Json.nat n).toTree = some n := by
  simp [natUpTo, Json.nat, toTree, hle]

theorem word_nat (n : UInt64) : word (Json.nat n.toNat).toTree = some n := by
  have hbounded : n.toNat ≤ 0xFFFFFFFFFFFFFFFF := Nat.le_of_lt_succ n.toNat_lt
  rw [word, nat, natUpTo_nat hbounded, Option.map_some, UInt64.ofNat_toNat]

theorem word32_nat (n : UInt32) : word32 (Json.nat n.toNat).toTree = some n := by
  have hbounded : n.toNat ≤ 0xFFFFFFFF := Nat.le_of_lt_succ n.toNat_lt
  rw [word32, natUpTo_nat hbounded, Option.map_some, UInt32.ofNat_toNat]

end Values

end Decode

end Provenance.Json
