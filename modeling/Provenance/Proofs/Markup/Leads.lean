import Provenance.Proofs.Markup.Agreement
import Provenance.Proofs.Markup.Verbatim

/-! # Where written characters lead

A character of a span leads to an assigned position by three numbers of its origin: the start
of the span, the characters added before it, and the correction for the character. Origins
keep these as words that wrap around. In the integers the same sum never does, and wherever it
lies inside the assigned string the words give the same answer.
-/

namespace Provenance.Markup

/-- The assigned position that a character of a span leads to. -/
def assignedPosition (start : Nat) (extra : Int) (offsets : Option (List Int)) (relative : Nat) :
    Int :=
  start - extra + relative + (offsets.bind (·[relative]?)).getD 0

theorem assignedPosition_none (start relative : Nat) (extra : Int) :
    assignedPosition start extra none relative = start - extra + relative :=
  Int.add_zero _

theorem assignedPosition_some {table : List Int} {relative : Nat} {offset : Int}
    (hoffset : table[relative]? = some offset) (start : Nat) (extra : Int) :
    assignedPosition start extra (some table) relative = start - extra + relative + offset := by
  simp only [assignedPosition, Option.bind_some, hoffset, Option.getD_some]

/-- A table without entries is left out. -/
theorem assignedPosition_table {table : List Int} {relative : Nat} {offset : Int}
    (hoffset : table[relative]? = some offset) (start : Nat) (extra : Int) :
    assignedPosition start extra (if table.isEmpty then none else some table) relative =
      start - extra + relative + offset := by
  cases table with
  | nil => cases hoffset
  | cons first rest => exact assignedPosition_some hoffset start extra

theorem Origin.assignedIndex_add (origin : Origin) (k : Nat) :
    origin.assignedIndex (origin.start.toNat + k) =
      let word := origin.start.toInt64 - origin.extra + Int64.ofNat k + origin.offsetAt k
      if word < 0 then none else some word.toNatClampNeg := by
  have hstart : Int64.ofNat origin.start.toNat = origin.start.toInt64 := by
    rw [← UInt64.toInt64_ofNat', UInt64.ofNat_toNat]
  have hword : Int64.ofNat (origin.start.toNat + k) - origin.extra =
      origin.start.toInt64 - origin.extra + Int64.ofNat k := by
    rw [Int64.ofNat_add, hstart]
    grind
  rw [assignedIndex, if_neg (Nat.not_lt_of_le (Nat.le_add_right _ _)), Nat.add_sub_cancel_left,
    hword]

namespace Mapper

variable {mapper : Mapper .checked} {mapped : MappedOrigin} {high index start length : Nat}
    {position : Int}

theorem offsetAt_origin (mapper : Mapper .checked) (target : Target) (action : Action)
    (start length : Nat) (extra : Int) (offsets : Option (List Int)) (relative : Nat) :
    (mapper.origin target action start length extra offsets).origin.offsetAt relative =
      Int64.ofInt ((offsets.bind (·[relative]?)).getD 0) := by
  cases offsets with
  | none => rfl
  | some table =>
      simp only [Origin.offsetAt, origin, Option.map_some, Option.bind_some, List.getElem?_map]
      cases table[relative]? with
      | none => rfl
      | some offset => rfl

/-- The words of an origin give the assigned position, wrapped around. -/
theorem assignedIndex_origin (mapper : Mapper .checked) (target : Target) (action : Action)
    (extra : Int) (offsets : Option (List Int)) (hle : start ≤ index)
    (hstart : start < UInt64.size) :
    (mapper.origin target action start length extra offsets).origin.assignedIndex index =
      let word := Int64.ofInt (assignedPosition start extra offsets (index - start))
      if word < 0 then none else some word.toNatClampNeg := by
  have hword : (UInt64.ofNat start).toNat = start := UInt64.toNat_ofNat_of_lt' hstart
  have hsum : (index : Int) - extra + (offsets.bind (·[index - start]?)).getD 0 =
      assignedPosition start extra offsets (index - start) := by
    simp only [assignedPosition]
    omega
  have hoffset := offsetAt_origin mapper target action start length extra offsets (index - start)
  have hposition : Int64.ofNat index - Int64.ofInt extra +
      (mapper.origin target action start length extra offsets).origin.offsetAt (index - start) =
        Int64.ofInt (assignedPosition start extra offsets (index - start)) := by
    rw [hoffset, ← hsum, Int64.ofInt_add, Int64.ofInt_sub, Int64.ofInt_eq_ofNat]
  have hstartWord : (mapper.origin target action start length extra offsets).origin.start.toNat =
      start := hword
  rw [Origin.assignedIndex, hstartWord, if_neg (Nat.not_lt_of_le hle)]
  exact congrArg (fun word : Int64 => if word < 0 then none else some word.toNatClampNeg) hposition

/-- A word for a position inside a string stands for the position itself. -/
theorem place_of_word (hnonneg : 0 ≤ position) (hlt : position < lengthLimit) :
    (let word := Int64.ofInt position
      if word < 0 then none else some word.toNatClampNeg) = some position.toNat := by
  have hint : (Int64.ofInt position).toInt = position := by
    obtain ⟨place, rfl⟩ := Int.eq_ofNat_of_zero_le hnonneg
    rw [Int64.ofInt_eq_ofNat]
    exact toInt_ofNat_of_lt (Int.ofNat_lt.mp hlt)
  have hpos : ¬ Int64.ofInt position < 0 := by
    rw [Int64.lt_iff_toInt_lt, hint]
    exact Int.not_lt.mpr hnonneg
  simp only [if_neg hpos, ← Int64.toNat_toInt, hint]

/-- A word that leads somewhere stands for that place, unless it wrapped around more than once. -/
theorem eq_of_word {place : Nat} (hlow : -(lengthLimit : Int) ≤ position)
    (hhigh : position < 2 * lengthLimit)
    (hword : (let word := Int64.ofInt position
      if word < 0 then none else some word.toNatClampNeg) = some place) : position = place := by
  by_cases hinside : 0 ≤ position ∧ position < lengthLimit
  · rw [place_of_word hinside.1 hinside.2] at hword
    have hplace := Option.some.inj hword
    omega
  · have hnegative : Int64.ofInt position < 0 := by
      have hzero : (0 : Int64).toInt = 0 := rfl
      have hwords : (Int64.size : Int) = 2 * lengthLimit := by decide
      rw [Int64.lt_iff_toInt_lt, Int64.toInt_ofInt, hzero, Int.bmod_def, hwords]
      simp only [lengthLimit] at hlow hhigh hinside ⊢
      omega
    simp only [if_pos hnegative, reduceCtorEq] at hword

/-- Whether an origin is one that a mapper yields for a span that ends at or before a written
    place, and its character of an index leads to an assigned position. -/
def LeadsTo (mapper : Mapper .checked) (high : Nat) (mapped : MappedOrigin) (index : Nat)
    (position : Int) : Prop :=
  ∃ target action start length extra offsets,
    mapped = mapper.origin target action start length extra offsets ∧
      start ≤ index ∧ index < start + length ∧ start + length ≤ high ∧
        assignedPosition start extra offsets (index - start) = position

theorem LeadsTo.mono {higher : Nat} (hleads : mapper.LeadsTo high mapped index position)
    (hle : high ≤ higher) : mapper.LeadsTo higher mapped index position := by
  obtain ⟨target, action, start, length, extra, offsets, rfl, hstart, hstop, hhigh, hposition⟩ :=
    hleads
  exact ⟨target, action, start, length, extra, offsets, rfl, hstart, hstop,
    Nat.le_trans hhigh hle, hposition⟩

theorem LeadsTo.covers (hleads : mapper.LeadsTo high mapped index position)
    (hhigh : high < UInt64.size) : mapped.origin.covers index = true := by
  obtain ⟨target, action, start, length, extra, offsets, rfl, hstart, hstop, hle, -⟩ := hleads
  have hwords : start + length < UInt64.size := Nat.lt_of_le_of_lt hle hhigh
  have hfirst : (UInt64.ofNat start).toNat = start := UInt64.toNat_ofNat_of_lt' (by omega)
  have hlast : (UInt64.ofNat start + UInt64.ofNat length).toNat = start + length := by
    rw [← UInt64.ofNat_add]
    exact UInt64.toNat_ofNat_of_lt' hwords
  simp only [Origin.covers, Origin.stop, origin, hfirst, hlast, Bool.and_eq_true,
    decide_eq_true_eq]
  exact ⟨hstart, hstop⟩

theorem LeadsTo.assignedIndex (hleads : mapper.LeadsTo high mapped index position)
    (hhigh : high < UInt64.size) (hpos : 0 ≤ position) (hlt : position < lengthLimit) :
    mapped.origin.assignedIndex index = some position.toNat := by
  obtain ⟨target, action, start, length, extra, offsets, rfl, hstart, hstop, hle, rfl⟩ := hleads
  rw [assignedIndex_origin mapper target action extra offsets hstart (by omega)]
  exact place_of_word hpos hlt

end Mapper

/-- What an origin of a mapping leads to is what the lookup finds. -/
theorem originAt_of_leadsTo {fragment : Fragment} {container : Nat} {closingTags : ClosingTags}
    (hbuilt : fragment.Built) (hproper : fragment.Proper container)
    (hsize : (fragment.innerHtml container).length < lengthLimit)
    (hremembers : closingTags.Remembers .byVoidTags) {assigned : Operand RecordId}
    {options : MapOptions} {mapper : Mapper .checked} {mapped : MappedOrigin} {index place : Nat}
    (hmem : mapped ∈ (map closingTags fragment container assigned options).origins)
    (hleads : mapper.LeadsTo (fragment.innerHtml container).length mapped index place)
    (hplace : place < lengthLimit) :
    ((Snapshot.capture fragment container
      (map closingTags fragment container assigned options).origins).originAt index).map
        ResolvedOrigin.charIndex = some place := by
  have hwords : (fragment.innerHtml container).length < UInt64.size :=
    Nat.lt_trans hsize (by decide)
  have hbefore := before_map .checked hbuilt hproper hwords hremembers assigned options
  have hindex := hleads.assignedIndex hwords (Int.natCast_nonneg place) (Int.ofNat_lt.mpr hplace)
  have hinside : index < (Snapshot.capture fragment container
      (map closingTags fragment container assigned options).origins).html.length := by
    obtain ⟨-, -, start, length, -, -, -, -, hstop, hle, -⟩ := hleads
    simpa only [Snapshot.capture, String.length_ofList] using Nat.lt_of_lt_of_le hstop hle
  have hlookup := Mapping.originAt_of_covers hbefore (List.mem_map.mpr ⟨mapped, hmem, rfl⟩)
    (hleads.covers hwords)
  rw [hindex] at hlookup
  rw [Snapshot.originAt, if_pos hinside]
  exact congrArg (Option.map ResolvedOrigin.charIndex) hlookup

end Provenance.Markup
