import Mathlib.Data.List.Basic
import Provenance.Named

/-! # Look-up and replacement of named entries

Putting in an entry changes what is under its name and nothing else. Entries whose names are
distinct already stay as they are when repeated names are dropped.
-/

namespace Provenance.Named

variable {α : Type} {name key : String} {value : α} {entries : Named α}

@[simp] theorem get?_nil : get? key ([] : Named α) = none := rfl

theorem get?_cons (entry : String × α) (rest : Named α) :
    get? key (entry :: rest) = if entry.1 = key then some entry.2 else rest.get? key := by
  unfold get?
  by_cases hsame : entry.1 = key <;> simp [hsame]

theorem get?_insert (name : String) (value : α) (entries : Named α) :
    (entries.insert name value).get? key =
      if name = key then some value else entries.get? key := by
  induction entries with
  | nil => exact get?_cons (name, value) []
  | cons entry rest ih =>
      obtain ⟨n, v⟩ := entry
      unfold insert
      split
      · rename_i hsame
        subst hsame
        rw [get?_cons, get?_cons]
        split <;> rfl
      · rename_i hother
        rw [get?_cons, get?_cons, ih]
        split
        · rename_i hfound
          subst hfound
          rw [if_neg (Ne.symm hother)]
        · rfl

theorem insert_of_not_mem (hfresh : name ∉ entries.names) (value : α) :
    entries.insert name value = entries ++ [(name, value)] := by
  induction entries with
  | nil => rfl
  | cons entry rest ih =>
      obtain ⟨n, v⟩ := entry
      have hother : ¬ n = name := fun hsame => hfresh (List.mem_cons.mpr (.inl hsame.symm))
      rw [insert, if_neg hother, ih fun hmem => hfresh (List.mem_cons_of_mem _ hmem)]
      rfl

theorem foldl_insert_of_nodup (known : Named α) (hapart : (known ++ entries).names.Nodup) :
    entries.foldl (fun known entry => known.insert entry.1 entry.2) known = known ++ entries := by
  induction entries generalizing known with
  | nil => exact (List.append_nil known).symm
  | cons entry rest ih =>
      have hfresh : entry.1 ∉ known.names := by
        intro hmem
        rw [names, List.map_append, List.map_cons] at hapart
        exact (List.nodup_append.mp hapart).2.2 _ hmem _ List.mem_cons_self rfl
      rw [List.foldl_cons, insert_of_not_mem hfresh]
      have hstep := ih (known ++ [entry]) (by simpa using hapart)
      simpa using hstep

theorem distinct_of_nodup (hnodup : entries.names.Nodup) : entries.distinct = entries :=
  foldl_insert_of_nodup [] hnodup

end Provenance.Named
