import Provenance.Proofs.Json.Scalar
import Provenance.Proofs.Named

/-! # Written values are read back

A value whose numbers are integers of 64 bits is read back from its compact text, unless it
is nested more than 127 levels deep. The reader takes the text of a value off the front of any
text, with two units of fuel for a character and one more.
-/

namespace Provenance.Json

mutual

/-- How many containers are nested in one another. -/
def levels : Json → Nat
  | .arr items => itemLevels items + 1
  | .obj members => memberLevels members + 1
  | _ => 0

/-- How many containers are nested in the items. -/
def itemLevels : List Json → Nat
  | [] => 0
  | item :: rest => max item.levels (itemLevels rest)

/-- How many containers are nested in the members. -/
def memberLevels : List (String × Json) → Nat
  | [] => 0
  | (_, value) :: rest => max value.levels (memberLevels rest)

end

mutual

/-- Whether all numbers are integers of 64 bits and no object repeats a name. -/
def isPlain : Json → Bool
  | .num n => n.isWord
  | .arr items => itemsPlain items
  | .obj members => decide (Named.names members).Nodup && membersPlain members
  | _ => true

/-- Whether the items are plain. -/
def itemsPlain : List Json → Bool
  | [] => true
  | item :: rest => item.isPlain && itemsPlain rest

/-- Whether the values of the members are plain. -/
def membersPlain : List (String × Json) → Bool
  | [] => true
  | (_, value) :: rest => value.isPlain && membersPlain rest

end

/-! ## Single steps of the reader -/

section Steps

variable {fuel depth : Nat} {c : Char} {text rest : List Char}

theorem skipSpace_cons (hvisible : isSpace c = false) : skipSpace (c :: text) = c :: text := by
  simp [skipSpace, hvisible]

theorem ne_of_number {d : Char} (hnumber : c.isDigit ∨ c = '-') (hother : d.isDigit = false)
    (hunsigned : d ≠ '-') : c ≠ d := by
  rintro rfl
  obtain hdigit | hsign := hnumber
  · rw [hother] at hdigit
    cases hdigit
  · exact hunsigned hsign

theorem visible_of_number (hnumber : c.isDigit ∨ c = '-') : isSpace c = false := by
  have hblank {d : Char} (hother : d.isDigit = false) (hunsigned : d ≠ '-') : ¬c = d :=
    ne_of_number hnumber hother hunsigned
  simp only [isSpace, hblank (d := ' ') rfl (by decide), hblank (d := '\t') rfl (by decide),
    hblank (d := '\n') rfl (by decide), hblank (d := '\r') rfl (by decide), decide_false,
    Bool.or_false]

theorem value_number (hnumber : c.isDigit ∨ c = '-') :
    Tree.value (fuel + 1) depth (c :: text) =
      (literal (c :: text)).map fun (l, rest) => (.ofLiteral l, rest) := by
  rw [Tree.value, skipSpace_cons (visible_of_number hnumber)]
  split
  case h_7 => rfl
  all_goals
    rename_i heq
    injection heq with heq _
    exact absurd heq (ne_of_number hnumber rfl (by decide))

theorem value_text : Tree.value (fuel + 1) depth ('"' :: text) =
    (quotation text).map fun (body, rest) => (.ofQuotation body, rest) := by
  rw [Tree.value]
  rfl

theorem array_of_le {items : List Tree} (hfits : depth ≤ deepest) :
    Tree.array depth items = .arr items := if_pos hfits

theorem readableNames_members (members : List (String × Tree)) :
    readableNames (members.map fun (name, value) => (some name.toList, value)) = some members := by
  unfold readableNames
  induction members with
  | nil => rfl
  | cons member members ih =>
      obtain ⟨name, value⟩ := member
      simp [ih]

theorem object_of_le {members : List (String × Tree)} (hfits : depth ≤ deepest) :
    Tree.object depth (members.map fun (name, value) => (some name.toList, value)) =
      .obj members := by
  simp only [Tree.object, if_pos hfits, readableNames_members]

theorem value_emptyArray (hfits : depth + 1 ≤ deepest) :
    Tree.value (fuel + 1) depth ('[' :: ']' :: rest) = some (.arr [], rest) := by
  rw [← array_of_le hfits, Tree.value]
  rfl

theorem value_array {items : List Tree} (hfits : depth + 1 ≤ deepest)
    (hvisible : isSpace c = false) (hmore : c ≠ ']')
    (hread : Tree.items fuel (depth + 1) (c :: text) = some (items, rest)) :
    Tree.value (fuel + 1) depth ('[' :: c :: text) = some (.arr items, rest) := by
  rw [← array_of_le hfits, Tree.value]
  simp only [skipSpace_cons (c := '[') rfl, skipSpace_cons hvisible]
  split
  · rename_i heq
    injection heq with heq _
    exact absurd heq hmore
  · rw [hread]
    rfl

theorem value_emptyObject (hfits : depth + 1 ≤ deepest) :
    Tree.value (fuel + 1) depth ('\x7b' :: '\x7d' :: rest) = some (.obj [], rest) := by
  rw [← object_of_le hfits, Tree.value]
  rfl

theorem value_object {members : List (String × Tree)} (hfits : depth + 1 ≤ deepest)
    (hread : Tree.members fuel (depth + 1) ('"' :: text) =
      some (members.map fun (name, value) => (some name.toList, value), rest)) :
    Tree.value (fuel + 1) depth ('\x7b' :: '"' :: text) = some (.obj members, rest) := by
  rw [← object_of_le hfits, Tree.value]
  simp only [skipSpace_cons (c := '\x7b') rfl, skipSpace_cons (c := '"') rfl]
  split
  · rename_i heq
    injection heq with heq _
    exact absurd heq (by decide)
  · rw [hread]
    rfl

theorem items_last {item : Tree}
    (hread : Tree.value fuel depth text = some (item, ']' :: rest)) :
    Tree.items (fuel + 1) depth text = some ([item], rest) := by
  rw [Tree.items, hread]
  rfl

theorem items_more {item : Tree}
    (hread : Tree.value fuel depth text = some (item, ',' :: rest)) :
    Tree.items (fuel + 1) depth text =
      (Tree.items fuel depth rest).map fun (items, rest) => (item :: items, rest) := by
  rw [Tree.items, hread]
  rfl

theorem members_last {name : String} {value : Tree}
    (hread : Tree.value fuel depth text = some (value, '\x7d' :: rest)) :
    Tree.members (fuel + 1) depth (stringText name ++ ':' :: text) =
      some ([(some name.toList, value)], rest) := by
  have hnamed := quotation_stringText name.toList (':' :: text)
  simp only [stringText, List.cons_append, List.append_assoc, List.nil_append]
  rw [Tree.members]
  simp only [skipSpace_cons (c := '"') rfl, hnamed, skipSpace_cons (c := ':') rfl, hread,
    skipSpace_cons (c := '\x7d') rfl]

theorem members_more {name : String} {value : Tree}
    (hread : Tree.value fuel depth text = some (value, ',' :: rest)) :
    Tree.members (fuel + 1) depth (stringText name ++ ':' :: text) =
      (Tree.members fuel depth rest).map fun (members, rest) =>
        ((some name.toList, value) :: members, rest) := by
  have hnamed := quotation_stringText name.toList (':' :: text)
  simp only [stringText, List.cons_append, List.append_assoc, List.nil_append]
  rw [Tree.members]
  simp only [skipSpace_cons (c := '"') rfl, hnamed, skipSpace_cons (c := ':') rfl, hread,
    skipSpace_cons (c := ',') rfl]

end Steps

/-! ## Whole values -/

/-- The text of a value begins with something that is no blank and does not end an array. -/
theorem exists_compact_cons {v : Json} (hplain : v.isPlain) :
    ∃ c text, v.compact = c :: text ∧ isSpace c = false ∧ c ≠ ']' := by
  cases v with
  | bool b => cases b <;> exact ⟨_, _, rfl, rfl, by decide⟩
  | num n =>
      obtain ⟨c, text, hwritten, hnumber⟩ := exists_text_cons (n := n) hplain
      exact ⟨c, text, hwritten, visible_of_number hnumber, ne_of_number hnumber rfl (by decide)⟩
  | null | str s | arr items | obj members => exact ⟨_, _, rfl, rfl, by decide⟩

theorem exists_compactItems_cons {item : Json} (hplain : item.isPlain) (items : List Json) :
    ∃ c text, compactItems (item :: items) = c :: text ∧ isSpace c = false ∧ c ≠ ']' := by
  obtain ⟨c, text, hwritten, hvisible, hmore⟩ := exists_compact_cons hplain
  cases items with
  | nil => exact ⟨c, text, hwritten, hvisible, hmore⟩
  | cons next items =>
      refine ⟨c, text ++ ',' :: compactItems (next :: items), ?_, hvisible, hmore⟩
      rw [compactItems, hwritten]
      rfl
      exact nofun

theorem compact_arr_append (items : List Json) (rest : List Char) :
    (arr items).compact ++ rest = '[' :: (compactItems items ++ ']' :: rest) := by
  simp [compact]

theorem compact_obj_append (members : List (String × Json)) (rest : List Char) :
    (obj members).compact ++ rest = '\x7b' :: (compactMembers members ++ '\x7d' :: rest) := by
  simp [compact]

theorem exists_compactMembers_cons (member : String × Json) (members : List (String × Json)) :
    ∃ text, compactMembers (member :: members) = '"' :: text := by
  cases members <;> exact ⟨_, rfl⟩

mutual

theorem value_compact (v : Json) {fuel depth : Nat} {rest : List Char} (hplain : v.isPlain)
    (hfits : depth + v.levels ≤ deepest) (henough : 2 * v.compact.length + 1 ≤ fuel)
    (hends : endsNumber rest) :
    Tree.value fuel depth (v.compact ++ rest) = some (v.toTree, rest) := by
  cases fuel with
  | zero => omega
  | succ fuel =>
    cases v with
    | null => rfl
    | bool b => cases b <;> rfl
    | num n =>
        obtain ⟨c, text, hwritten, hnumber⟩ := exists_text_cons (n := n) hplain
        have hread := literal_text (n := n) hplain hends
        rw [hwritten, List.cons_append] at hread
        change Tree.value (fuel + 1) depth (n.text ++ rest) = _
        rw [hwritten, List.cons_append, value_number hnumber]
        exact hread
    | str s =>
        have hquoted := quotation_stringText s.toList rest
        simp only [compact, scalarText, stringText, List.cons_append, List.append_assoc,
          List.nil_append, value_text, hquoted]
        simp [Tree.ofQuotation, toTree]
    | arr items =>
        rw [levels] at hfits
        cases items with
        | nil =>
            exact value_emptyArray (by omega)
        | cons item items =>
            have hnonempty : item :: items ≠ [] := nofun
            -- the brackets pay for the two steps that lead to the first item
            have hshape := compact_arr_append (item :: items) rest
            have hlength := congrArg List.length hshape
            rw [List.length_append, List.length_cons, List.length_append,
              List.length_cons] at hlength
            have hread : Tree.items fuel (depth + 1) (compactItems (item :: items) ++ ']' :: rest) =
                some (itemTrees (item :: items), rest) :=
              items_compact (item :: items) hnonempty hplain (by omega) (by omega)
            obtain ⟨c, text, hwritten, hvisible, hmore⟩ :=
              exists_compactItems_cons (Bool.and_eq_true_iff.mp hplain).1 items
            rw [hwritten, List.cons_append] at hshape hread
            rw [hshape]
            exact value_array (by omega) hvisible hmore hread
    | obj members =>
        rw [levels] at hfits
        cases members with
        | nil =>
            exact value_emptyObject (by omega)
        | cons member members =>
            have hnonempty : member :: members ≠ [] := nofun
            have hshape := compact_obj_append (member :: members) rest
            have hlength := congrArg List.length hshape
            rw [List.length_append, List.length_cons, List.length_append,
              List.length_cons] at hlength
            have hread : Tree.members fuel (depth + 1)
                (compactMembers (member :: members) ++ '\x7d' :: rest) = some (_, rest) :=
              members_compact (member :: members) hnonempty (Bool.and_eq_true_iff.mp hplain).2
                (by omega) (by omega)
            obtain ⟨text, hwritten⟩ := exists_compactMembers_cons member members
            rw [hwritten, List.cons_append] at hshape hread
            rw [hshape]
            exact value_object (by omega) hread
termination_by sizeOf v

theorem items_compact (items : List Json) {fuel depth : Nat} {rest : List Char}
    (hnonempty : items ≠ []) (hplain : itemsPlain items)
    (hfits : depth + itemLevels items ≤ deepest)
    (henough : 2 * (compactItems items).length + 2 ≤ fuel) :
    Tree.items fuel depth (compactItems items ++ ']' :: rest) = some (itemTrees items, rest) := by
  cases fuel with
  | zero => omega
  | succ fuel =>
    cases items with
    | nil => exact absurd rfl hnonempty
    | cons item items =>
      obtain ⟨hplainItem, hplainItems⟩ := Bool.and_eq_true_iff.mp hplain
      rw [itemLevels] at hfits
      cases items with
      | nil =>
          rw [compactItems] at henough ⊢
          exact items_last (value_compact item hplainItem (by omega) (by omega) rfl)
      | cons next items =>
          rw [compactItems] at henough ⊢
          rw [List.length_append, List.length_cons] at henough
          rw [List.append_assoc, List.cons_append,
            items_more (value_compact item hplainItem (by omega) (by omega) rfl),
            items_compact (next :: items) nofun hplainItems (by omega) (by omega)]
          rfl
          all_goals exact nofun
termination_by sizeOf items

theorem members_compact (members : List (String × Json)) {fuel depth : Nat} {rest : List Char}
    (hnonempty : members ≠ []) (hplain : membersPlain members)
    (hfits : depth + memberLevels members ≤ deepest)
    (henough : 2 * (compactMembers members).length + 2 ≤ fuel) :
    Tree.members fuel depth (compactMembers members ++ '\x7d' :: rest) =
      some ((memberTrees members).map fun (name, value) => (some name.toList, value), rest) := by
  cases fuel with
  | zero => omega
  | succ fuel =>
    cases members with
    | nil => exact absurd rfl hnonempty
    | cons member members =>
      cases member with
      | mk name value =>
        obtain ⟨hplainValue, hplainMembers⟩ := Bool.and_eq_true_iff.mp hplain
        rw [memberLevels] at hfits
        cases members with
        | nil =>
            rw [compactMembers] at henough ⊢
            rw [List.length_append, List.length_cons] at henough
            rw [List.append_assoc, List.cons_append]
            exact members_last (value_compact value hplainValue (by omega) (by omega) rfl)
        | cons next members =>
            rw [compactMembers] at henough ⊢
            rw [List.length_append, List.length_append, List.length_cons,
              List.length_cons] at henough
            rw [List.append_assoc, List.append_assoc, List.cons_append, List.cons_append,
              members_more (value_compact value hplainValue (by omega) (by omega) rfl),
              members_compact (next :: members) nofun hplainMembers (by omega) (by omega)]
            rfl
            all_goals exact nofun
termination_by sizeOf members

end

/-- A plain value of at most 127 levels is read back from its compact text. -/
theorem read_render {v : Json} (hplain : v.isPlain) (hfits : v.levels ≤ deepest) :
    Tree.read v.render = some v.toTree := by
  have hread : Tree.value (2 * v.compact.length + 2) 0 (v.compact ++ []) = some (v.toTree, []) :=
    value_compact v hplain (by omega) (by omega) rfl
  rw [List.append_nil] at hread
  simp only [Tree.read, render, String.toList_ofList, hread]
  rfl

/-! ## Trees and values -/

mutual

theorem toJson_toTree (v : Json) (hplain : v.isPlain) : v.toTree.toJson = some v := by
  cases v with
  | null | bool b | num n | str s => rfl
  | arr items =>
      rw [toTree, Tree.toJson, toItems_itemTrees items hplain]
      rfl
  | obj members =>
      obtain ⟨hnodup, hplain⟩ := Bool.and_eq_true_iff.mp hplain
      rw [toTree, Tree.toJson, toMembers_memberTrees members hplain, Option.map_some,
        Named.distinct_of_nodup (of_decide_eq_true hnodup)]

theorem toItems_itemTrees (items : List Json) (hplain : itemsPlain items) :
    Tree.toItems (itemTrees items) = some items := by
  cases items with
  | nil => rfl
  | cons item items =>
      obtain ⟨hplainItem, hplainItems⟩ := Bool.and_eq_true_iff.mp hplain
      rw [itemTrees, Tree.toItems, toJson_toTree item hplainItem,
        toItems_itemTrees items hplainItems]
      rfl

theorem toMembers_memberTrees (members : List (String × Json)) (hplain : membersPlain members) :
    Tree.toMembers (memberTrees members) = some members := by
  cases members with
  | nil => rfl
  | cons member members =>
      cases member with
      | mk name value =>
        obtain ⟨hplainValue, hplainMembers⟩ := Bool.and_eq_true_iff.mp hplain
        rw [memberTrees, Tree.toMembers, toJson_toTree value hplainValue,
          toMembers_memberTrees members hplainMembers]
        rfl

end

end Provenance.Json
