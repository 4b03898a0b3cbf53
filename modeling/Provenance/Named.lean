/-! # Named entries in order

Lists of pairs of a name and a value that keep the order in which names first appear. An
entry whose name is there already takes the place of the old one.
-/

namespace Provenance

/-- Values under names, in order. -/
abbrev Named (α : Type u) := List (String × α)

namespace Named

variable {α β : Type}

/-- The names, in order. -/
def names (entries : Named α) : List String := entries.map Prod.fst

/-- The value under a name. -/
def get? (name : String) (entries : Named α) : Option α :=
  (entries.find? (·.1 == name)).map Prod.snd

/-- Puts a value under a name: in the place of the entry of that name, or else at the end. -/
def insert (name : String) (value : α) : Named α → Named α
  | [] => [(name, value)]
  | (n, v) :: rest => if n = name then (name, value) :: rest else (n, v) :: insert name value rest

/-- Every name at its first place with its last value. -/
def distinct (entries : Named α) : Named α :=
  entries.foldl (fun known entry => known.insert entry.1 entry.2) []

theorem names_insert (name : String) (value : α) (entries : Named α) :
    (entries.insert name value).names =
      if name ∈ entries.names then entries.names else entries.names ++ [name] := by
  induction entries with
  | nil => simp [insert, names]
  | cons entry rest ih =>
    obtain ⟨n, v⟩ := entry
    by_cases h : n = name
    · subst h
      simp [insert, names]
    · have h' : name ≠ n := fun he => h he.symm
      simp only [names] at ih
      by_cases hmem : name ∈ List.map Prod.fst rest
      · simp [insert, names, h, ih, hmem]
      · simp [insert, names, h, h', ih, hmem]

theorem nodup_insert {entries : Named α} (h : entries.names.Nodup) (name : String) (value : α) :
    (entries.insert name value).names.Nodup := by
  rw [names_insert]
  split
  · exact h
  · next hn =>
    rw [List.nodup_append]
    exact ⟨h, by simp, by intro a ha b hb; simp at hb; subst hb; exact fun he => hn (he ▸ ha)⟩

theorem nodup_distinct (entries : Named α) : entries.distinct.names.Nodup := by
  have hstep : ∀ (known : Named α), known.names.Nodup →
      (entries.foldl (fun known entry => known.insert entry.1 entry.2) known).names.Nodup := by
    induction entries with
    | nil => exact fun _ h => h
    | cons entry rest ih => exact fun known h => ih _ (nodup_insert h entry.1 entry.2)
  exact hstep [] (by simp [names])

end Named

end Provenance
