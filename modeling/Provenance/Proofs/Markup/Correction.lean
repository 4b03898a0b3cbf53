import Provenance.Proofs.Markup.Words

/-! # Correction tables on any input

What a correction table does where nothing is known about the two sides. Each step passes over
one assigned character, or over more if they are there. So the table never goes back, and if
it does not reach the end of the content, every serialized character leads to an assigned one
that the table has passed over.
-/

namespace Provenance.Markup

theorem referenceLength?_bounds {text : List Char} {length : Nat}
    (h : referenceLength? text = some length) : 0 < length ∧ length ≤ text.length := by
  unfold referenceLength? at h
  split at h
  · rename_i rest heq
    simp only at h
    split at h
    · rename_i hbody
      obtain ⟨hbound, -⟩ := List.getElem?_eq_some_iff.mp hbody.2
      have hlength := congrArg List.length heq
      rw [List.length_take, List.length_cons] at hlength
      have hsome := Option.some.inj h
      omega
    · cases h
  · cases h

/-- Characters are only dropped for a reference. -/
theorem exists_of_decoded {keeps : Bool} {text assigned : List Char} {more : Nat}
    (h : pairing keeps text assigned = .decoded more) :
    ∃ length, referenceLength? assigned = some length ∧ more = length - 1 := by
  unfold pairing at h
  split at h
  · split at h
    · cases h
    · cases h
  · cases h
  · rename_i length _ hlength
    exact ⟨length, hlength, (Pairing.decoded.inj h).symm⟩
  · cases h

namespace Source

section AnyBuild

variable {build : Build} {source : Source build} {position added : Int} {count inside : Nat}
  {keeps : Bool}

theorem corrections_inside (c : Char) (rest : List Char) :
    source.corrections keeps (c :: rest) (inside + 1) position added =
      (-(added + 1) :: (source.corrections keeps rest inside position (added + 1)).1,
        (source.corrections keeps rest inside position (added + 1)).2) := rfl

theorem corrections_stop (c : Char) (rest : List Char)
    (hle : source.contentEnd ≤ build.position position) :
    source.corrections keeps (c :: rest) 0 position added = ([-added], added) := by
  rw [corrections, if_pos hle]

theorem corrections_go (c : Char) (rest : List Char)
    (hlt : build.position position < source.contentEnd) (added : Int) :
    source.corrections keeps (c :: rest) 0 position added =
      let (inside, dropped) := source.pair keeps (c :: rest) position
      let later := source.corrections keeps rest inside (position + 1 + dropped) (added - dropped)
      (-added :: later.1, later.2) := by
  rw [corrections, if_neg (Int.not_le.mpr hlt)]

/-- A text never counts more characters as added than it has. -/
theorem corrections_total_le (source : Source build) (keeps : Bool) (text : List Char)
    (inside : Nat) (position added : Int) :
    (source.corrections keeps text inside position added).2 ≤ added + text.length := by
  induction text generalizing inside position added with
  | nil => simp [corrections]
  | cons c rest ih =>
      rw [List.length_cons]
      cases inside with
      | succ inside =>
          have hle := ih inside position (added + 1)
          rw [corrections_inside]
          omega
      | zero =>
          by_cases hstop : source.contentEnd ≤ build.position position
          · rw [corrections_stop c rest hstop]
            omega
          · have hle := ih (source.pair keeps (c :: rest) position).1
              (position + 1 + (source.pair keeps (c :: rest) position).2)
              (added - (source.pair keeps (c :: rest) position).2)
            rw [corrections_go c rest (Int.not_le.mp hstop)]
            simp only
            omega

end AnyBuild

variable {source : Source .checked} {position added : Int} {count inside : Nat} {keeps : Bool}

theorem slice_eq (source : Source .checked) (position : Int) (count : Nat) :
    source.slice position count =
      if position < 0 then [] else (source.chars.drop position.toNat).take count := rfl

/-- What a slice holds is there. -/
theorem add_le_of_slice {k : Nat} (hpos : 0 < k) (hle : k ≤ (source.slice position count).length) :
    0 ≤ position ∧ position + k ≤ source.chars.length := by
  rw [slice_eq] at hle
  split at hle
  · simp only [List.length_nil] at hle
    omega
  · simp only [List.length_take, List.length_drop] at hle
    omega

/-- A slice is part of the assigned string, at its position. -/
theorem exists_of_slice {text : List Char} (hne : text ≠ [])
    (h : source.slice position count = text) :
    ∃ front back, source.chars = front ++ (text ++ back) ∧ position = (front.length : Nat) := by
  subst h
  have hpos : 0 < (source.slice position count).length := List.length_pos_iff.mpr hne
  obtain ⟨hzero, hle⟩ := add_le_of_slice hpos (Nat.le_refl _)
  have hslice : source.slice position count = (source.chars.drop position.toNat).take count :=
    if_neg (Int.not_lt.mpr hzero)
  refine ⟨source.chars.take position.toNat, (source.chars.drop position.toNat).drop count, ?_, ?_⟩
  · rw [hslice, List.take_append_drop, List.take_append_drop]
  · rw [List.length_take]
    omega

/-- A step at a serialized character by the way it is paired with the assigned side. -/
theorem corrections_pair {c : Char} {rest : List Char} {pair : Pairing} {gain : Int}
    (hlt : position < source.contentEnd)
    (hpair : pairing keeps (c :: rest) (source.slice position referenceWindow) = pair)
    (hgain : (if joinsLines (c :: rest) (source.slice position referenceWindow) then 1 else 0) +
      (pair.dropped : Int) = gain) (added : Int) :
    source.corrections keeps (c :: rest) 0 position added =
      (-added ::
          (source.corrections keeps rest pair.inside (position + 1 + gain) (added - gain)).1,
        (source.corrections keeps rest pair.inside (position + 1 + gain) (added - gain)).2) := by
  have hdropped : ((source.pair keeps (c :: rest) position).2 : Int) = gain := by
    rw [← hgain, Source.pair, hpair, Int.add_comm]
    split
    · rfl
    · rfl
  have hinside : (source.pair keeps (c :: rest) position).1 = pair.inside := by
    rw [Source.pair, hpair]
  rw [corrections_go c rest hlt]
  simp only [hdropped, hinside]

/-- Further assigned characters belong to a serialized one only if they are there. -/
theorem pair_there (source : Source .checked) (keeps : Bool) (text : List Char) (position : Int) :
    (source.pair keeps text position).2 = 0 ∨
      0 ≤ position ∧ position + (source.pair keeps text position).2 ≤ source.chars.length := by
  let assigned := source.slice position referenceWindow
  let pair := pairing keeps text assigned
  let joined : Nat := if joinsLines text assigned then 1 else 0
  have hjoined : joined = 0 ∨ joined = 1 ∧ 0 ≤ position ∧ position + 1 ≤ source.chars.length := by
    by_cases hjoins : joinsLines text assigned = true
    · refine .inr ⟨if_pos hjoins, ?_⟩
      have hhead : assigned.head? = some '\r' := by
        simp only [joinsLines, Bool.and_eq_true, decide_eq_true_eq] at hjoins
        exact hjoins.2
      have hlength : 1 ≤ assigned.length := by
        cases hassigned : assigned with
        | nil => rw [hassigned] at hhead; cases hhead
        | cons d more => exact Nat.succ_pos _
      exact add_le_of_slice Nat.one_pos hlength
    · exact .inl (if_neg hjoins)
  have hdropped : pair.dropped = 0 ∨
      0 ≤ position ∧ position + (pair.dropped + 1 : Nat) ≤ source.chars.length := by
    cases hpair : pair with
    | same => exact .inl rfl
    | written more => exact .inl rfl
    | decoded more =>
        obtain ⟨length, hlength, rfl⟩ := exists_of_decoded hpair
        obtain ⟨hpos, hle⟩ := referenceLength?_bounds hlength
        have hmore : length - 1 + 1 ≤ assigned.length := by omega
        exact .inr (add_le_of_slice (Nat.succ_pos _) hmore)
  have hsum : (source.pair keeps text position).2 = pair.dropped + joined := rfl
  rw [hsum]
  omega

/-- What one step of a correction table can do: it passes over one assigned character, and
    over further ones only if they are there. -/
theorem corrections_step (source : Source .checked) (keeps : Bool) (c : Char) (rest : List Char)
    (added : Int) (hlt : position < source.contentEnd) :
    ∃ (inside : Nat) (gain : Int), 0 ≤ gain ∧
      (gain = 0 ∨ 0 ≤ position ∧ position + gain ≤ source.chars.length) ∧
      source.corrections keeps (c :: rest) 0 position added =
        (-added :: (source.corrections keeps rest inside (position + 1 + gain) (added - gain)).1,
          (source.corrections keeps rest inside (position + 1 + gain) (added - gain)).2) := by
  have hthere := source.pair_there keeps (c :: rest) position
  refine ⟨(source.pair keeps (c :: rest) position).1, (source.pair keeps (c :: rest) position).2,
    Int.natCast_nonneg _, ?_, corrections_go c rest hlt added⟩
  omega

/-- The positions that are summed up for a table lie where the text begins or behind, and before
    the end of the text or of the assigned string by what is left of the text. -/
theorem sums_bounds (source : Source .checked) (keeps : Bool) {text : List Char} {inside : Nat}
    {position added low high : Int} (hlow : low ≤ position) (hstart : low ≤ position + added)
    (hhigh : position + text.length ≤ high) (hend : source.chars.length + text.length ≤ high)
    (hstop : position + added + text.length ≤ high) :
    ∀ sum ∈ source.sums keeps text inside position added, low ≤ sum ∧ sum < high := by
  induction text generalizing inside position added with
  | nil => exact fun sum hmem => nomatch hmem
  | cons c rest ih =>
      rw [List.length_cons] at hhigh hend hstop
      cases inside with
      | succ inside =>
          exact ih hlow (by omega) (by omega) (by omega) (by omega)
      | zero =>
          have hthere := source.pair_there keeps (c :: rest) position
          intro sum hmem
          rw [Source.sums] at hmem
          rcases List.mem_cons.mp hmem with rfl | hmem
          · omega
          · rcases List.mem_cons.mp hmem with rfl | hmem
            · omega
            · split at hmem
              · cases hmem
              · exact @ih (source.pair keeps (c :: rest) position).1
                  (position + 1 + (source.pair keeps (c :: rest) position).2)
                  (added - (source.pair keeps (c :: rest) position).2) (by omega) (by omega)
                  (by omega) (by omega) (by omega) sum hmem

theorem tableSums_bounds (source : Source .checked) (tag : String) (text : List Char)
    (position : Int) : ∀ sum ∈ source.tableSums tag text position,
      position ≤ sum ∧ sum ≤ max position source.chars.length + text.length := by
  intro sum hmem
  rcases List.mem_cons.mp hmem with rfl | hmem
  · omega
  · have hbounds := @sums_bounds source (keepsReferences tag) text 0 position 0 position
      (max position source.chars.length + text.length) (Int.le_refl _) (by omega) (by omega)
      (by omega) (by omega) sum hmem
    omega

/-- Where there is room for a text, its table can be found in every build. -/
theorem isSigned_tableSums {tag : String} {text : List Char}
    (hroom : source.Room position text.length) :
    ∀ sum ∈ source.tableSums tag text position, Origin.isSigned sum = true := by
  intro sum hmem
  obtain ⟨hlow, hhigh⟩ := source.tableSums_bounds tag text position sum hmem
  obtain ⟨hleast, hmost⟩ := hroom
  exact Origin.isSigned_iff.mpr ⟨by omega, by omega⟩

/-- A text never counts more characters as added than it has, and it counts none as dropped
    that are not there. -/
theorem corrections_bounds (source : Source .checked) (keeps : Bool) (text : List Char)
    (inside : Nat) (position added : Int) :
    (source.corrections keeps text inside position added).2 ≤ added + text.length ∧
      position + added ≤ max position source.chars.length +
        (source.corrections keeps text inside position added).2 := by
  induction text generalizing inside position added with
  | nil =>
      simp only [corrections, List.length_nil]
      omega
  | cons c rest ih =>
      rw [List.length_cons]
      cases inside with
      | succ inside =>
          obtain ⟨hle, hend⟩ := ih inside position (added + 1)
          rw [corrections_inside]
          constructor <;> omega
      | zero =>
          by_cases hstop : source.contentEnd ≤ position
          · rw [corrections_stop c rest hstop]
            constructor <;> omega
          · obtain ⟨inside, gain, hgain, hthere, heq⟩ :=
              corrections_step source keeps c rest added (Int.not_le.mp hstop)
            obtain ⟨hle, hend⟩ := ih inside (position + 1 + gain) (added - gain)
            rw [heq]
            constructor <;> omega

/-- A table that does not reach the end of the content has an entry for every character, and
    every character leads to an assigned one that the table has passed over. The characters
    inside of a reference lead to the one before the position. -/
theorem corrections_confined (source : Source .checked) (keeps : Bool) {text : List Char}
    {inside : Nat}
    {position added low : Int} (hlow : low ≤ position) (hinside : 0 < inside → low + 1 ≤ position)
    (hend : position + added + text.length -
      (source.corrections keeps text inside position added).2 ≤ source.contentEnd) :
    (source.corrections keeps text inside position added).1.length = text.length ∧
      ∀ (k : Nat) (offset : Int),
        (source.corrections keeps text inside position added).1[k]? = some offset →
          low ≤ position + added + k + offset ∧
            position + added + k + offset < position + added + text.length -
              (source.corrections keeps text inside position added).2 := by
  induction text generalizing inside position added with
  | nil => exact ⟨rfl, fun k offset hget => nomatch hget⟩
  | cons c rest ih =>
      rw [List.length_cons] at hend ⊢
      cases inside with
      | succ inside =>
          rw [corrections_inside] at hend ⊢
          obtain ⟨hle, -⟩ := source.corrections_bounds keeps rest inside position (added + 1)
          obtain ⟨hlength, hentries⟩ := @ih inside position (added + 1) hlow
            (fun _ => hinside (Nat.succ_pos _)) (by omega)
          refine ⟨congrArg Nat.succ hlength, fun k offset hget => ?_⟩
          cases k with
          | zero =>
              have hoffset : -(added + 1) = offset := Option.some.inj hget
              have hbehind := hinside (Nat.succ_pos _)
              omega
          | succ k =>
              have hentry := hentries k offset hget
              omega
      | zero =>
          by_cases hstop : source.contentEnd ≤ position
          · rw [corrections_stop c rest hstop] at hend
            omega
          · obtain ⟨inside, gain, hgain, -, heq⟩ :=
              corrections_step source keeps c rest added (Int.not_le.mp hstop)
            rw [heq] at hend ⊢
            obtain ⟨hle, -⟩ := source.corrections_bounds keeps rest inside (position + 1 + gain)
              (added - gain)
            obtain ⟨hlength, hentries⟩ := @ih inside (position + 1 + gain) (added - gain)
              (by omega) (fun _ => by omega) (by omega)
            refine ⟨congrArg Nat.succ hlength, fun k offset hk => ?_⟩
            cases k with
            | zero =>
                have hoffset : -added = offset := Option.some.inj hk
                omega
            | succ k =>
                have hentry := hentries k offset hk
                omega

theorem table_confined (source : Source .checked) (tag : String) {text : List Char} {position : Int}
    (hend : position + text.length - (source.table tag text position).2 ≤ source.contentEnd) :
    (source.table tag text position).1.length = text.length ∧
      ∀ (k : Nat) (offset : Int), (source.table tag text position).1[k]? = some offset →
        position ≤ position + k + offset ∧
          position + k + offset < position + text.length - (source.table tag text position).2 := by
  have hnone : 0 < 0 → position + 1 ≤ position := fun hlt => absurd hlt (Nat.lt_irrefl 0)
  have hconfined := source.corrections_confined (keepsReferences tag) (Int.le_refl position) hnone
    (show position + 0 + text.length - (source.table tag text position).2 ≤ _ by
      rwa [Int.add_zero])
  simp only [Int.add_zero] at hconfined
  exact hconfined

end Source

end Provenance.Markup
