import Provenance.Proofs.Json.Fields

/-! # Written forms that lose nothing

A value comes back from its text if its decoder gives it back from its written form, and if that
form is plain, so that it comes back from the text itself. Both carry over from the parts of a
value to the whole.
-/

namespace Provenance.Json

theorem itemsPlain_iff {items : List Json} : itemsPlain items ↔ ∀ item ∈ items, item.isPlain := by
  induction items with
  | nil => simp [itemsPlain]
  | cons item items ih => simp [itemsPlain, ih]

theorem isPlain_nat {n : Nat} (hle : n ≤ Number.greatest) : (nat n).isPlain := by
  have hbounds : (-0x8000000000000000 : Int) ≤ n ∧ (n : Int) ≤ 0xFFFFFFFFFFFFFFFF := by
    unfold Number.greatest at hle
    omega
  exact decide_eq_true hbounds

theorem names_given_sublist (fields : List (String × Option Json)) :
    List.Sublist (Named.names (given fields)) (fields.map Prod.fst) := by
  induction fields with
  | nil => exact List.Sublist.slnil
  | cons field fields ih =>
      obtain ⟨name, value⟩ := field
      have hsplit : Named.names (given ((name, value) :: fields)) =
          Named.names (field? name value) ++ Named.names (given fields) := by
        simp [Named.names, given]
      rw [hsplit]
      cases value with
      | none => exact ih.cons name
      | some value => exact ih.cons_cons name

/-- An object is plain if its fields have different names and plain values. -/
theorem isPlain_given {fields : List (String × Option Json)}
    (hnodup : (fields.map Prod.fst).Nodup)
    (hplain : ∀ field ∈ fields, ∀ value ∈ field.2, value.isPlain) :
    (obj (given fields)).isPlain := by
  have hvalues : membersPlain (given fields) := by
    rw [membersPlain_iff]
    intro member hlisted
    obtain ⟨⟨name, value⟩, hinside, hholds⟩ := List.mem_flatMap.mp hlisted
    cases value with
    | none => cases hholds
    | some value =>
        cases List.mem_singleton.mp hholds
        exact hplain _ hinside value rfl
  exact Bool.and_eq_true_iff.mpr
    ⟨decide_eq_true (hnodup.sublist (names_given_sublist fields)), hvalues⟩

namespace Decode

variable {α : Type} {decode : Decoder α}

/-- The decoder gives back the value from a written form, and this from its text. -/
structure Faithful (decode : Decoder α) (written : Json) (value : α) : Prop
    extends Returns decode written value where
  plain : written.isPlain

theorem Faithful.read_render {written : Json} {value : α}
    (hfaithful : Faithful decode written value)
    (hshallow : written.levels ≤ deepest) :
    (Tree.read written.render).bind decode = some value := by
  rw [Json.read_render hfaithful.plain hshallow]
  exact hfaithful.decoded

theorem Faithful.map {β : Type} {written : Json} {value : α}
    (hfaithful : Faithful decode written value) (f : α → β) :
    Faithful (fun tree => (decode tree).map f) written (f value) where
  decoded := by
    rw [hfaithful.decoded]
    rfl
  notNull := hfaithful.notNull
  plain := hfaithful.plain

/-- What belongs to an alternative is written under the name of the alternative. -/
theorem Faithful.alternative {choice : Decoder α} {written : Json} {value : α}
    (hfaithful : Faithful decode written value) (name : String)
    (hreads : ∀ tree, choice (.obj [(name, tree)]) = decode tree) :
    Faithful choice (.obj [(name, written)]) value where
  decoded := (hreads written.toTree).trans hfaithful.decoded
  notNull := nofun
  plain := by simp [isPlain, membersPlain, Named.names, hfaithful.plain]

/-- A structure comes back if its fields do. -/
theorem faithful_of_fields {written : Json} {value : α} {build : List Slot → Option α}
    (fields : List (String × Option Json)) (hsame : written = obj (given fields))
    (hnodup : (fields.map Prod.fst).Nodup)
    (hplain : ∀ field ∈ fields, ∀ value ∈ field.2, value.isPlain)
    (hreads : ∀ tree, decode tree = (slots (fields.map Prod.fst) tree).bind build)
    (hbuilt : build (fields.map fun field => Slot.ofField field.2) = some value) :
    Faithful decode written value where
  decoded := by
    rw [hreads, hsame, slots_given fields hnodup]
    exact hbuilt
  notNull := by
    rw [hsame]
    nofun
  plain := hsame ▸ isPlain_given hnodup hplain

theorem faithful_string (s : String) : Faithful string (.str s) s where
  decoded := rfl
  notNull := nofun
  plain := rfl

theorem faithful_nat {n : Nat} (hle : n ≤ Number.greatest) : Faithful nat (.nat n) n where
  decoded := natUpTo_nat hle
  notNull := nofun
  plain := isPlain_nat hle

theorem faithful_word (n : UInt64) : Faithful word (.nat n.toNat) n where
  decoded := word_nat n
  notNull := nofun
  plain := isPlain_nat (Nat.le_of_lt_succ n.toNat_lt)

theorem faithful_word32 (n : UInt32) : Faithful word32 (.nat n.toNat) n where
  decoded := word32_nat n
  notNull := nofun
  plain := isPlain_nat (Nat.le_trans (Nat.le_of_lt_succ n.toNat_lt) (by decide))

theorem faithful_signed (n : Int64) : Faithful signed (.int n.toInt) n where
  decoded := by
    have hlower : -0x8000000000000000 ≤ n.toInt := n.le_toInt
    have hupper : n.toInt < 0x8000000000000000 := n.toInt_lt
    change (if _ then some (Int64.ofInt n.toInt) else none) = _
    rw [if_pos ⟨hlower, hupper⟩, Int64.ofInt_toInt]
  notNull := nofun
  plain := by
    have hlower := n.le_toInt
    have hupper := n.toInt_lt
    exact decide_eq_true (by omega)

/-- A list comes back if its items do. -/
theorem faithful_list {encode : α → Json} {values : List α}
    (heach : ∀ value ∈ values, Faithful decode (encode value) value) :
    Faithful (list decode) (.arr (values.map encode)) values where
  decoded := by
    change (itemTrees (values.map encode)).mapM decode = some values
    induction values with
    | nil => rfl
    | cons value values ih =>
        obtain ⟨hfirst, hothers⟩ := List.forall_mem_cons.mp heach
        rw [List.map_cons, itemTrees, List.mapM_cons, hfirst.decoded, ih hothers]
        rfl
  notNull := nofun
  plain := by
    apply itemsPlain_iff.mpr
    intro item hlisted
    obtain ⟨value, hmem, rfl⟩ := List.mem_map.mp hlisted
    exact (heach value hmem).plain

end Decode

/-- Whether the values of a type come back from their texts, except from such as are nested more
    than 127 levels deep. -/
def Lossless {α : Type} (encode : α → Json) (decode : Decoder α) (writable : α → Prop) : Prop :=
  ∀ value, writable value → (encode value).levels ≤ 127 →
    (Tree.read (encode value).render).bind decode = some value

section Lossless

variable {α : Type} {encode : α → Json} {decode : Decoder α} {writable : α → Prop}
  (hfaithful : ∀ {value}, writable value → Decode.Faithful decode (encode value) value)

include hfaithful

theorem lossless_of_faithful : Lossless encode decode writable :=
  fun _ hfits hshallow => (hfaithful hfits).read_render hshallow

theorem lossless_list : Lossless (fun values => .arr (values.map encode)) (Decode.list decode)
    (∀ value ∈ ·, writable value) :=
  fun _ hfits hshallow =>
    (Decode.faithful_list fun value hmem => hfaithful (hfits value hmem)).read_render hshallow

end Lossless

end Provenance.Json
