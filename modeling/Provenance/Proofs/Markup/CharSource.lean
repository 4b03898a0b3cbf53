import Provenance.Proofs.Markup.Passage

/-! # Text as it was assigned

A character of a text can be assigned as it is, as a reference, or, for a line feed, as a carriage
return and a line feed; it is written as it is or as a reference. The pieces of a text say how
each of its characters was assigned, and with that what each written character leads back to. A
piece fits if no ampersand begins a reference that was not meant as one, and if a reference that is
written as a reference keeps its length.
-/

namespace Provenance.Markup

/-- Whether a text begins with a reference. -/
def BeginsReference (text : List Char) : Prop :=
  ∃ body rest, text = '&' :: (body ++ ';' :: rest) ∧ body ≠ [] ∧
    (∀ c ∈ body, isReferenceChar c = true) ∧ body.length + 2 ≤ referenceWindow

/-- A length is only found where a reference is. -/
theorem beginsReference_of_length {text : List Char} {length : Nat}
    (h : referenceLength? text = some length) : BeginsReference text := by
  unfold referenceLength? at h
  split at h
  · rename_i rest heq
    let body := rest.takeWhile isReferenceChar
    simp only at h
    split at h
    · rename_i hbody
      have hsplit : rest = body ++ ';' :: rest.drop (body.length + 1) := by
        obtain ⟨hlt, hget⟩ := List.getElem?_eq_some_iff.mp hbody.2
        have hdrop := List.drop_eq_getElem_cons hlt
        rw [hget] at hdrop
        have htake : rest.take body.length = body :=
          (List.prefix_iff_eq_take.mp (List.takeWhile_prefix isReferenceChar)).symm
        calc rest = rest.take body.length ++ rest.drop body.length :=
              (List.take_append_drop _ _).symm
          _ = body ++ ';' :: rest.drop (body.length + 1) := by rw [htake, hdrop]
      have hwindow : rest.length + 1 ≤ referenceWindow := by
        have hlength := congrArg List.length heq
        rw [List.length_take, List.length_cons] at hlength
        omega
      have hlength := congrArg List.length hsplit
      rw [List.length_append, List.length_cons] at hlength
      refine ⟨body, rest.drop (body.length + 1) ++ text.drop referenceWindow, ?_,
        List.length_pos_iff.mp hbody.1, List.all_eq_true.mp List.all_takeWhile, by omega⟩
      calc text = text.take referenceWindow ++ text.drop referenceWindow :=
            (List.take_append_drop _ _).symm
        _ = _ := by rw [heq, hsplit]; simp
    · cases h
  · cases h

theorem beginsReference_iff {text : List Char} :
    BeginsReference text ↔ referenceLength? text ≠ none := by
  constructor
  · rintro ⟨body, rest, rfl, hne, hall, hshort⟩
    rw [referenceLength?_of_whole hne hall hshort]
    exact Option.some_ne_none _
  · intro h
    obtain ⟨length, hlength⟩ := Option.ne_none_iff_exists'.mp h
    exact beginsReference_of_length hlength

instance (text : List Char) : Decidable (BeginsReference text) :=
  decidable_of_iff _ beginsReference_iff.symm

theorem referenceLength?_eq_none {text : List Char} (h : ¬ BeginsReference text) :
    referenceLength? text = none :=
  not_not.mp fun hlength => h (beginsReference_iff.mpr hlength)

/-- How a character of a text was assigned. -/
inductive CharSource where
  /-- As it is. -/
  | itself (c : Char)
  /-- A line feed, as a carriage return and a line feed. -/
  | lineEnd
  /-- As a reference, of which `body` is between the ampersand and the semicolon. -/
  | reference (body : List Char) (c : Char)
  deriving DecidableEq, Repr

namespace CharSource

def source : CharSource → List Char
  | itself c => [c]
  | lineEnd => ['\r', '\n']
  | reference body _ => '&' :: (body ++ [';'])

/-- The character that it stands for. -/
def decoded : CharSource → Char
  | itself c => c
  | lineEnd => '\n'
  | reference _ c => c

/-- The place in what was assigned that a written character leads to. Only a reference that is
    written as one has more than one such place. -/
def lead : CharSource → Nat → Nat
  | reference _ _, relative => relative
  | _, _ => 0

/-- Whether a character can be assigned like this before some other text. A reference must be
    decoded or written as a reference of the same length. -/
def Fits (escape : Char → List Char) (rest : List Char) : CharSource → Prop
  | itself c => c ≠ '\r' ∧ ¬ BeginsReference (c :: rest)
  | lineEnd => True
  | reference body c => body ≠ [] ∧ (∀ d ∈ body, isReferenceChar d = true) ∧
      body.length + 2 ≤ referenceWindow ∧ (escape c = [c] ∨ (escape c).length = body.length + 2)

instance (escape : Char → List Char) (rest : List Char) :
    (piece : CharSource) → Decidable (piece.Fits escape rest)
  | itself c => inferInstanceAs (Decidable (c ≠ '\r' ∧ ¬ BeginsReference (c :: rest)))
  | lineEnd => inferInstanceAs (Decidable True)
  | reference body c =>
    decidable_of_iff (body ≠ [] ∧ body.all isReferenceChar = true ∧
      body.length + 2 ≤ referenceWindow ∧
        (escape c = [c] ∨ (escape c).length = body.length + 2)) (by rw [List.all_eq_true]; rfl)

/-- Whether every character of a text can be assigned as it is said, with some rest behind. -/
def Fit (escape : Char → List Char) : List CharSource → List Char → Prop
  | [], _ => True
  | piece :: pieces, rest =>
    piece.Fits escape (pieces.flatMap source ++ rest) ∧ Fit escape pieces rest

instance (escape : Char → List Char) :
    (pieces : List CharSource) → (rest : List Char) → Decidable (Fit escape pieces rest)
  | [], _ => inferInstanceAs (Decidable True)
  | piece :: pieces, rest =>
    have := instDecidableFit escape pieces rest
    inferInstanceAs (Decidable (piece.Fits escape (pieces.flatMap source ++ rest) ∧
      Fit escape pieces rest))

def written (escape : Char → List Char) (piece : CharSource) : List Char := escape piece.decoded

/-- The places in what was assigned for several characters that the written ones lead to. -/
def leads (escape : Char → List Char) : List CharSource → List Nat
  | [] => []
  | piece :: pieces =>
    (List.range (piece.written escape).length).map piece.lead ++
      (leads escape pieces).map (piece.source.length + ·)

def passage (escape : Char → List Char) (piece : CharSource) : Passage where
  source := piece.source
  leads := (List.range (piece.written escape).length).map fun relative => some (piece.lead relative)

variable {escape : Char → List Char} {rest : List Char} {piece : CharSource}
  {pieces : List CharSource}

theorem Fits.lead_lt (hfits : piece.Fits escape rest) {relative : Nat}
    (hlt : relative < (piece.written escape).length) :
    piece.lead relative < piece.source.length := by
  cases piece with
  | itself c => exact Nat.one_pos
  | lineEnd => exact Nat.two_pos
  | reference body c =>
      obtain ⟨-, -, -, hescape⟩ := hfits
      have hsource : (reference body c).source.length = body.length + 2 := by simp [source]
      rw [hsource]
      simp only [written, decoded] at hlt
      rcases hescape with hplain | hkept
      · rw [hplain, List.length_singleton] at hlt
        exact Nat.lt_of_lt_of_le hlt (Nat.le_add_left 1 _)
      · rwa [hkept] at hlt

theorem source_join (escape : Char → List Char) (pieces : List CharSource) :
    (Passage.join (pieces.map (passage escape))).source = pieces.flatMap source := by
  rw [Passage.source_join, List.flatMap_map]
  rfl

theorem length_leads_join (escape : Char → List Char) (pieces : List CharSource) :
    (Passage.join (pieces.map (passage escape))).leads.length =
      (pieces.flatMap (written escape)).length := by
  rw [Passage.length_leads_join, List.flatMap_map, List.length_flatMap, List.length_flatMap]
  simp [passage]

theorem flatMap_decoded (escape : Char → List Char) (pieces : List CharSource) :
    (pieces.map decoded).flatMap escape = pieces.flatMap (written escape) := List.flatMap_map ..

theorem join_eq (escape : Char → List Char) (pieces : List CharSource) :
    Passage.join (pieces.map (passage escape)) =
      ⟨pieces.flatMap source, (leads escape pieces).map some⟩ := by
  refine Passage.ext (source_join escape pieces) ?_
  induction pieces with
  | nil => rfl
  | cons piece pieces ih =>
      rw [List.map_cons, Passage.join, Passage.leads_append, ih, leads]
      simp [passage, Function.comp_def, Nat.add_comm]

theorem length_leads (escape : Char → List Char) (pieces : List CharSource) :
    (leads escape pieces).length = (pieces.flatMap (written escape)).length := by
  rw [← length_leads_join, join_eq, List.length_map]

theorem Fit.fits {front : List CharSource} (hfit : Fit escape (front ++ piece :: pieces) rest) :
    piece.Fits escape (pieces.flatMap source ++ rest) := by
  induction front with
  | nil => exact hfit.1
  | cons other front ih => exact ih hfit.2

theorem Fit.lead_lt (hfit : Fit escape pieces rest) (hmem : piece ∈ pieces) {relative : Nat}
    (hlt : relative < (piece.written escape).length) :
    piece.lead relative < piece.source.length := by
  obtain ⟨front, back, rfl⟩ := List.append_of_mem hmem
  exact hfit.fits.lead_lt hlt

theorem lt_of_mem_leads
    (hlead : ∀ piece ∈ pieces, ∀ relative < (piece.written escape).length,
      piece.lead relative < piece.source.length)
    {place : Nat} (hmem : place ∈ leads escape pieces) :
    place < (pieces.flatMap source).length := by
  induction pieces generalizing place with
  | nil => cases hmem
  | cons piece pieces ih =>
      rw [List.flatMap_cons, List.length_append]
      rcases List.mem_append.mp hmem with hfirst | hothers
      · obtain ⟨relative, hrange, rfl⟩ := List.mem_map.mp hfirst
        have hlt := hlead piece List.mem_cons_self relative (List.mem_range.mp hrange)
        exact Nat.lt_add_right _ hlt
      · obtain ⟨inner, hinner, rfl⟩ := List.mem_map.mp hothers
        have hlt := ih (fun other hother => hlead other (List.mem_cons_of_mem piece hother)) hinner
        exact Nat.add_lt_add_left hlt _

/-- The corrections that lead written characters to the places of their pieces, after `added`
    characters more than assigned. -/
def entries (escape : Char → List Char) (pieces : List CharSource) (added : Int) : List Int :=
  (leads escape pieces).mapIdx fun k (place : Nat) => (place : Int) - k - added

theorem entries_cons (piece : CharSource) (pieces : List CharSource) (added : Int) :
    entries escape (piece :: pieces) added =
      (List.range (piece.written escape).length).map
          (fun k : Nat => (piece.lead k : Int) - k - added) ++
        entries escape pieces
          (added + (piece.written escape).length - (piece.source.length : Nat)) := by
  rw [entries, leads, List.mapIdx_append]
  congr 1
  · refine List.ext_getElem (by simp) fun k _ _ => ?_
    simp
  · refine List.ext_getElem (by simp [entries]) fun k _ _ => ?_
    simp only [entries, List.getElem_mapIdx, List.getElem_map, List.length_map, List.length_range]
    omega

theorem length_entries (pieces : List CharSource) (added : Int) :
    (entries escape pieces added).length = (pieces.flatMap (written escape)).length := by
  rw [entries, List.length_mapIdx, length_leads]

/-- Where a character that is written for one of several pieces leads. -/
theorem leads_join (front back : List CharSource) {relative : Nat}
    (hlt : relative < (piece.written escape).length) :
    (Passage.join ((front ++ piece :: back).map (passage escape))).leads[
      (front.flatMap (written escape)).length + relative]? =
        some (some ((front.flatMap source).length + piece.lead relative)) := by
  have hlead : (piece.passage escape).leads[relative]? = some (some (piece.lead relative)) := by
    simp only [passage, List.getElem?_map, List.getElem?_range hlt, Option.map_some]
  have hjoin := Passage.leads_join (front.map (passage escape)) (back.map (passage escape)) hlead
  rw [← Passage.length_leads_join, length_leads_join, ← Passage.source_join, source_join] at hjoin
  rw [List.map_append, List.map_cons]
  exact hjoin

theorem getElem?_leads (front back : List CharSource) {relative : Nat}
    (hlt : relative < (piece.written escape).length) :
    (leads escape (front ++ piece :: back))[(front.flatMap (written escape)).length + relative]? =
      some ((front.flatMap source).length + piece.lead relative) := by
  have hlead := leads_join front back hlt
  rw [join_eq, List.getElem?_map, Option.map_eq_some_iff] at hlead
  obtain ⟨place, hplace, heq⟩ := hlead
  rw [hplace, Option.some.inj heq]

/-- The characters at the front that are assigned as they are. -/
theorem exists_itself_front (pieces : List CharSource) :
    ∃ (plain : List Char) (back : List CharSource), pieces = plain.map itself ++ back ∧
      ∀ c, back.head? ≠ some (itself c) := by
  induction pieces with
  | nil => exact ⟨[], [], rfl, nofun⟩
  | cons piece pieces ih =>
      cases piece with
      | itself c =>
          obtain ⟨plain, back, rfl, hhead⟩ := ih
          exact ⟨c :: plain, back, rfl, hhead⟩
      | lineEnd => exact ⟨[], lineEnd :: pieces, rfl, nofun⟩
      | reference body c => exact ⟨[], reference body c :: pieces, rfl, nofun⟩

theorem flatMap_source_itself (plain : List Char) :
    (plain.map itself).flatMap source = plain := by
  rw [List.flatMap_map]
  exact List.flatMap_singleton' plain

end CharSource

end Provenance.Markup
