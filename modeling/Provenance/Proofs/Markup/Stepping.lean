import Provenance.Proofs.Markup.CharSource
import Provenance.Proofs.Markup.Correction

/-! # Stepping over pieces

A correction table reads both sides at once and decides anew at every character. It steps over a
piece if it passes all of it and leads what is written for the piece to the places of the piece.
Each way to assign a character has a step of its own; pieces that are stepped over one by one are
passed as a whole.
-/

namespace Provenance.Markup

namespace Source

variable {source : Source .checked} {before text rest : List Char} {position added : Int}
    {keeps : Bool}
  {escape : Char → List Char} {piece : CharSource} {pieces : List CharSource}

/-- The further characters of a written reference lead to the place before the position. -/
theorem corrections_within (source : Source .checked) (keeps : Bool) (more text : List Char)
    (position added : Int) :
    source.corrections keeps (more ++ text) more.length position added =
      ((List.range more.length).map (fun k : Nat => -(added + 1 + k)) ++
          (source.corrections keeps text 0 position (added + more.length)).1,
        (source.corrections keeps text 0 position (added + more.length)).2) := by
  induction more generalizing added with
  | nil => simp
  | cons c more ih =>
      have hcast : added + 1 + (more.length : Int) = added + (more.length + 1 : Nat) := by omega
      have hentries : ∀ k : Nat, -(added + 1 + 1 + (k : Int)) = -(added + 1 + (k + 1 : Nat)) := by
        intro k
        omega
      rw [List.cons_append, List.length_cons, corrections_inside, ih, hcast,
        List.range_succ_eq_map, List.map_cons, List.map_map]
      simp [Function.comp_def, hentries]

/-- A character that is paired with the assigned one. -/
theorem corrections_same {c : Char} (hlt : (before.length : Int) < source.contentEnd)
    (hpair : pairing keeps (c :: text) (source.slice before.length referenceWindow) = .same)
    (hjoins : joinsLines (c :: text) (source.slice before.length referenceWindow) = false)
    (added : Int) :
    source.corrections keeps (c :: text) 0 before.length added =
      (-added :: (source.corrections keeps text 0 (before.length + 1 : Nat) added).1,
        (source.corrections keeps text 0 (before.length + 1 : Nat) added).2) := by
  have hgain : (if joinsLines (c :: text) (source.slice before.length referenceWindow) then 1
      else 0) + (Pairing.same.dropped : Int) = 0 := by
    rw [hjoins]
    rfl
  rw [corrections_pair hlt hpair hgain, Int.add_zero, Int.sub_zero]
  rfl

/-- A character that is written as a reference, and has no such part on the assigned side. -/
theorem corrections_written {more : List Char} (hlt : (before.length : Int) < source.contentEnd)
    (hpair : pairing keeps ('&' :: (more ++ text))
      (source.slice before.length referenceWindow) = .written more.length) (added : Int) :
    source.corrections keeps ('&' :: (more ++ text)) 0 before.length added =
      let after := source.corrections keeps text 0 (before.length + 1 : Nat) (added + more.length)
      ((List.range (more.length + 1)).map (fun k : Nat => -(added + k)) ++ after.1, after.2) := by
  have hgain : (if joinsLines ('&' :: (more ++ text))
      (source.slice before.length referenceWindow) then 1 else 0) +
        ((Pairing.written more.length).dropped : Int) = 0 := rfl
  have hentries : ∀ k : Nat, -(added + 1 + (k : Int)) = -(added + (k + 1 : Nat)) := by
    intro k
    omega
  rw [corrections_pair hlt hpair hgain, Int.add_zero, Int.sub_zero, Pairing.inside,
    corrections_within, List.range_succ_eq_map, List.map_cons, List.map_map]
  simp only [hentries, Int.ofNat_zero, Int.add_zero]
  rfl

/-- A character that has no part in a reference on either side. -/
theorem corrections_plain {c d : Char} (hsource : source.chars = before ++ d :: rest)
    (hlt : (before.length : Int) < source.contentEnd) (hchar : c ≠ '&') (hother : d ≠ '&')
    (hjoins : joinsLines (c :: text) [d] = false) (added : Int) :
    source.corrections keeps (c :: text) 0 before.length added =
      (-added :: (source.corrections keeps text 0 (before.length + 1 : Nat) added).1,
        (source.corrections keeps text 0 (before.length + 1 : Nat) added).2) := by
  have hslice : source.slice before.length referenceWindow = d :: rest.take 29 :=
    slice_of_append hsource referenceWindow
  refine corrections_same hlt ?_ ?_ added
  · simp only [hslice, pairing, referenceLength?_of_head hchar, referenceLength?_of_head hother]
  · rw [hslice]
    exact hjoins

/-- Texts of the same length that have no part in a reference on either side. -/
theorem corrections_plains {front front' : List Char} (hlength : front.length = front'.length)
    (hsource : source.chars = before ++ (front' ++ rest))
    (hend : (before.length + front'.length : Nat) ≤ source.contentEnd)
    (hfront : ∀ c ∈ front, c ≠ '&') (hfront' : ∀ c ∈ front', c ≠ '&' ∧ c ≠ '\r') (added : Int) :
    source.corrections keeps (front ++ text) 0 before.length added =
      (List.replicate front.length (-added) ++
          (source.corrections keeps text 0 (before.length + front'.length : Nat) added).1,
        (source.corrections keeps text 0 (before.length + front'.length : Nat) added).2) := by
  induction front generalizing before front' with
  | nil =>
      obtain rfl := List.eq_nil_of_length_eq_zero hlength.symm
      rfl
  | cons c front ih =>
      cases front' with
      | nil => cases hlength
      | cons d front' =>
          have hchar := hfront' d List.mem_cons_self
          rw [List.length_cons] at hend
          have hjoins : joinsLines (c :: (front ++ text)) [d] = false := by
            simp only [joinsLines, List.head?_cons, Option.some.injEq, hchar.2, decide_false,
              Bool.and_false]
          have hstep := @corrections_plain _ _ _ _ keeps c d hsource (by omega)
            (hfront c List.mem_cons_self) hchar.1 hjoins added
          have hrest := @ih (before ++ [d]) front' (Nat.succ.inj hlength) (by rw [hsource]; simp)
            (by rw [List.length_append, List.length_singleton]; omega)
            (fun e he => hfront e (List.mem_cons_of_mem c he))
            fun e he => hfront' e (List.mem_cons_of_mem d he)
          rw [List.length_append, List.length_singleton] at hrest
          rw [List.cons_append, hstep, hrest, List.length_cons, List.length_cons, Nat.add_assoc,
            Nat.add_comm 1]
          rfl

theorem referenceLength?_slice (hsource : source.chars = before ++ text) :
    referenceLength? (source.slice before.length referenceWindow) = referenceLength? text := by
  rw [slice_of_append hsource, referenceLength?_take]

theorem corrections_lineEnd (hsource : source.chars = before ++ '\r' :: '\n' :: rest)
    (hlt : (before.length : Int) < source.contentEnd) (text : List Char) (added : Int) :
    source.corrections keeps ('\n' :: text) 0 before.length added =
      (-added :: (source.corrections keeps text 0 (before.length + 2 : Nat) (added - 1)).1,
        (source.corrections keeps text 0 (before.length + 2 : Nat) (added - 1)).2) := by
  have hslice : source.slice before.length referenceWindow = '\r' :: '\n' :: rest.take 28 :=
    slice_of_append hsource referenceWindow
  have hpair : pairing keeps ('\n' :: text) (source.slice before.length referenceWindow) =
      .same := by
    simp only [hslice, pairing, referenceLength?_of_head (show '\n' ≠ '&' by decide),
      referenceLength?_of_head (show '\r' ≠ '&' by decide)]
  have hgain : (if joinsLines ('\n' :: text) (source.slice before.length referenceWindow) then 1
      else 0) + (Pairing.same.dropped : Int) = 1 := by
    rw [hslice]
    rfl
  rw [corrections_pair hlt hpair hgain]
  rfl

theorem corrections_decoded {body : List Char} {c : Char} (hchar : c ≠ '&') (hne : body ≠ [])
    (hall : ∀ d ∈ body, isReferenceChar d = true) (hlength : body.length + 2 ≤ referenceWindow)
    (hsource : source.chars = before ++ '&' :: (body ++ ';' :: rest))
    (hlt : (before.length : Int) < source.contentEnd) (text : List Char) (added : Int) :
    source.corrections keeps (c :: text) 0 before.length added =
      let after := source.corrections keeps text 0 (before.length + (body.length + 2) : Nat)
        (added - (body.length + 1 : Nat))
      (-added :: after.1, after.2) := by
  have hpair : pairing keeps (c :: text) (source.slice before.length referenceWindow) =
      .decoded (body.length + 1) := by
    simp only [pairing, referenceLength?_slice hsource, referenceLength?_of_head hchar,
      referenceLength?_of_whole hne hall hlength]
    rfl
  have hgain : (if joinsLines (c :: text) (source.slice before.length referenceWindow) then 1
      else 0) + ((Pairing.decoded (body.length + 1)).dropped : Int) = (body.length + 1 : Nat) := by
    rw [slice_of_append hsource]
    simp [joinsLines, referenceWindow, Pairing.dropped]
  have hnext : (before.length : Int) + 1 + (body.length + 1 : Nat) =
      (before.length + (body.length + 2) : Nat) := by omega
  rw [corrections_pair hlt hpair hgain, hnext]
  rfl

theorem ne_of_isReferenceChar {body : List Char} (hall : ∀ c ∈ body, isReferenceChar c = true) :
    ∀ c ∈ body ++ [';'], c ≠ '&' ∧ c ≠ '\r' := by
  intro c hother
  rcases List.mem_append.mp hother with hother | hother
  · have hchar := hall c hother
    constructor
    · rintro rfl
      exact absurd hchar (by decide)
    · rintro rfl
      exact absurd hchar (by decide)
  · rw [List.mem_singleton.mp hother]
    decide

/-- A reference that is written as a reference is taken for the same one. Both sides go on
    character by character, through the plain text behind it, whatever their lengths are. -/
theorem corrections_abreast {body body' plain : List Char} (hne : body ≠ [])
    (hall : ∀ d ∈ body, isReferenceChar d = true) (hshort : body.length + 2 ≤ referenceWindow)
    (hne' : body' ≠ []) (hall' : ∀ d ∈ body', isReferenceChar d = true)
    (hlength' : body'.length + 2 ≤ referenceWindow) (hplain : ∀ d ∈ plain, d ≠ '&' ∧ d ≠ '\r')
    (hsource : source.chars = before ++ '&' :: (body ++ ';' :: (plain ++ rest))) {count : Nat}
    (hcount : count ≤ (body ++ ';' :: plain).length)
    (hcount' : count ≤ (body' ++ ';' :: plain).length)
    (hend : (before.length + 1 + count : Nat) ≤ source.contentEnd) (text : List Char)
    (added : Int) :
    source.corrections false ('&' :: (body' ++ ';' :: (plain ++ text))) 0 before.length added =
      let after := source.corrections false ((body' ++ ';' :: plain).drop count ++ text) 0
        (before.length + 1 + count : Nat) added
      (List.replicate (count + 1) (-added) ++ after.1, after.2) := by
  have hpair : pairing false ('&' :: (body' ++ ';' :: (plain ++ text)))
      (source.slice before.length referenceWindow) = .same := by
    simp only [pairing, referenceLength?_slice hsource, referenceLength?_of_whole hne hall hshort,
      referenceLength?_of_whole hne' hall' hlength']
    rfl
  have hchars : ∀ {name : List Char}, (∀ d ∈ name, isReferenceChar d = true) →
      ∀ d ∈ (name ++ ';' :: plain).take count, d ≠ '&' ∧ d ≠ '\r' := by
    intro name hname d hchar
    have hchar := List.mem_of_mem_take hchar
    rw [← List.singleton_append, ← List.append_assoc] at hchar
    exact (List.mem_append.mp hchar).elim (ne_of_isReferenceChar hname d) (hplain d)
  have hlength : ∀ {run : List Char}, count ≤ run.length → (run.take count).length = count :=
    fun hle => List.length_take_of_le hle
  have htail : source.chars = before ++ ['&'] ++ ((body ++ ';' :: plain).take count ++
      ((body ++ ';' :: plain).drop count ++ rest)) := by
    rw [← List.append_assoc (List.take _ _), List.take_append_drop, hsource]
    simp
  have hrest : source.corrections false ((body' ++ ';' :: plain).take count ++
      ((body' ++ ';' :: plain).drop count ++ text)) 0 _ added = _ :=
    corrections_plains ((hlength hcount').trans (hlength hcount).symm) htail
      (by rw [hlength hcount, List.length_append, List.length_singleton]; exact hend)
      (fun d hchar => (hchars hall' d hchar).1) (hchars hall) added
  rw [← List.append_assoc, List.take_append_drop, hlength hcount, hlength hcount',
    List.length_append, List.length_singleton] at hrest
  have htext : body' ++ ';' :: (plain ++ text) = body' ++ ';' :: plain ++ text := by simp
  rw [corrections_same (by omega) hpair rfl, htext, hrest, List.replicate_succ]
  rfl

/-- A reference that is written as a reference of the same length. -/
theorem corrections_kept {body body' : List Char} (hne : body ≠ [])
    (hall : ∀ d ∈ body, isReferenceChar d = true) (hshort : body.length + 2 ≤ referenceWindow)
    (hall' : ∀ d ∈ body', isReferenceChar d = true) (hlength : body'.length = body.length)
    (hsource : source.chars = before ++ '&' :: (body ++ ';' :: rest))
    (hend : (before.length + (body.length + 2) : Nat) ≤ source.contentEnd) (text : List Char)
    (added : Int) :
    source.corrections false ('&' :: (body' ++ ';' :: text)) 0 before.length added =
      let after := source.corrections false text 0 (before.length + (body.length + 2) : Nat) added
      (List.replicate (body.length + 2) (-added) ++ after.1, after.2) := by
  have hne' : body' ≠ [] := by
    rintro rfl
    exact hne (List.eq_nil_of_length_eq_zero hlength.symm)
  have hcount : body.length + 1 = (body ++ [';']).length := by simp
  have hcount' : body.length + 1 = (body' ++ [';']).length := by simp [hlength]
  have hsteps := @corrections_abreast source before rest body body' [] hne hall hshort hne' hall'
    (by omega) (List.forall_mem_nil _) hsource (body.length + 1) (Nat.le_of_eq hcount)
    (Nat.le_of_eq hcount') (by omega) text added
  rw [List.drop_of_length_le (Nat.le_of_eq hcount'.symm)] at hsteps
  rwa [Nat.add_assoc, Nat.add_comm 1] at hsteps

/-- Whether a table that comes to a piece passes over all of it, and leads what is written for it
    to the places of the piece. What is written behind the piece is given, as a table looks
    ahead. -/
def StepsOver (source : Source .checked) (keeps : Bool) (escape : Char → List Char)
    (before : List Char) (piece : CharSource) (text : List Char) : Prop :=
  ∀ added : Int, source.corrections keeps (piece.written escape ++ text) 0 before.length added =
    let after := source.corrections keeps text 0 (before.length + piece.source.length : Nat)
      (added + (piece.written escape).length - piece.source.length)
    ((List.range (piece.written escape).length).map
        (fun k : Nat => (piece.lead k : Int) - k - added) ++ after.1, after.2)

/-- A character that is written as it is. -/
theorem stepsOver_same {c : Char} (hplain : escape c = [c])
    (hlt : (before.length : Int) < source.contentEnd)
    (hpair : pairing keeps (c :: text) (source.slice before.length referenceWindow) = .same)
    (hjoins : joinsLines (c :: text) (source.slice before.length referenceWindow) = false) :
    source.StepsOver keeps escape before (.itself c) text := by
  intro added
  have hwritten : (CharSource.itself c).written escape = [c] := hplain
  have hadded : added + ([c].length : Nat) - ((CharSource.itself c).source.length : Nat) = added :=
    Int.add_sub_cancel added 1
  rw [hwritten, hadded, List.singleton_append, corrections_same hlt hpair hjoins]
  simp [CharSource.lead, CharSource.source]

/-- A character that is written as a reference. -/
theorem stepsOver_written {c : Char} {more : List Char} (hwritten : escape c = '&' :: more)
    (hlt : (before.length : Int) < source.contentEnd)
    (hpair : pairing keeps ('&' :: (more ++ text))
      (source.slice before.length referenceWindow) = .written more.length) :
    source.StepsOver keeps escape before (.itself c) text := by
  intro added
  have hescape : (CharSource.itself c).written escape = '&' :: more := hwritten
  have hadded : added + ('&' :: more).length - ((CharSource.itself c).source.length : Nat) =
      added + more.length := by
    simp only [CharSource.source, List.length_cons, List.length_nil]
    omega
  have hentries : ∀ k : Nat, ((CharSource.itself c).lead k : Int) - k - added = -(added + k) := by
    intro k
    simp only [CharSource.lead]
    omega
  rw [hescape, hadded, List.cons_append, corrections_written hlt hpair]
  simp only [hentries, List.length_cons]
  rfl

theorem stepsOver_lineEnd (hnewline : escape '\n' = ['\n'])
    (hsource : source.chars = before ++ '\r' :: '\n' :: rest)
    (hlt : (before.length : Int) < source.contentEnd) (text : List Char) :
    source.StepsOver keeps escape before .lineEnd text := by
  intro added
  have hwritten : CharSource.lineEnd.written escape = ['\n'] := hnewline
  have hadded : added + (['\n'].length : Nat) - (CharSource.lineEnd.source.length : Nat) =
      added - 1 := by
    simp only [CharSource.source, List.length_cons, List.length_nil]
    omega
  rw [hwritten, hadded, List.singleton_append, corrections_lineEnd hsource hlt]
  simp [CharSource.lead, CharSource.source]

theorem stepsOver_reference (hescaping : Escaping escape) {body : List Char} {c : Char}
    (hfits : (CharSource.reference body c).Fits escape rest)
    (hchars : source.chars = before ++ '&' :: (body ++ ';' :: rest))
    (hend : (before.length + (body.length + 2) : Nat) ≤ source.contentEnd) (text : List Char) :
    source.StepsOver false escape before (.reference body c) text := by
  intro added
  obtain ⟨hne, hall, hshort, hescape⟩ := hfits
  have hsource : (CharSource.reference body c).source.length = body.length + 2 := by
    simp [CharSource.source]
  have hentries : ∀ k : Nat, ((CharSource.reference body c).lead k : Int) - k - added =
      -added := by
    intro k
    simp only [CharSource.lead]
    omega
  simp only [hentries, hsource, CharSource.written, CharSource.decoded, List.map_const']
  rcases hescaping c with ⟨hplain, hchar⟩ | ⟨body', hbody, -, hall', -⟩
  · have hadded : added + ([c].length : Nat) - (body.length + 2 : Nat) =
        added - (body.length + 1 : Nat) := by
      rw [List.length_singleton]
      omega
    rw [hplain, hadded, List.singleton_append,
      corrections_decoded hchar hne hall hshort hchars (by omega)]
    rfl
  · have hlength : body'.length = body.length := by
      have hwritten : (escape c).length = body'.length + 2 := by simp [hbody]
      rcases hescape with hplain | hkept
      · rw [hplain, List.length_singleton] at hwritten
        omega
      · omega
    have hadded : added + ('&' :: (body' ++ [';'])).length - (body.length + 2 : Nat) = added := by
      simp only [List.length_cons, List.length_append, List.length_nil, hlength]
      omega
    rw [hbody, hadded, List.cons_append, List.append_assoc, List.singleton_append,
      corrections_kept hne hall hshort (List.all_eq_true.mp hall') hlength hchars hend]
    simp [hlength]

/-- A character that is assigned as it is, and with which no reference begins on that side. -/
theorem stepsOver_itself (hescaping : Escaping escape) {c : Char}
    (hnone : ¬ BeginsReference (c :: rest))
    (hsource : source.chars = before ++ c :: rest) (hlt : (before.length : Int) < source.contentEnd)
    (text : List Char) : source.StepsOver keeps escape before (.itself c) text := by
  have hassigned := referenceLength?_slice hsource
  rw [referenceLength?_eq_none hnone] at hassigned
  rcases hescaping c with ⟨hplain, hchar⟩ | ⟨body, hbody, hne, hall, hlength⟩
  · refine stepsOver_same hplain hlt ?_ ?_
    · simp only [pairing, referenceLength?_of_head hchar, hassigned]
    · rw [slice_of_append hsource]
      exact joinsLines_of_same
  · refine stepsOver_written hbody hlt ?_
    rw [List.append_assoc, List.singleton_append]
    simp only [pairing, hassigned, referenceLength?_of_whole hne (List.all_eq_true.mp hall) hlength,
      List.length_append, List.length_singleton]
    rfl

/-- A table steps over a piece that fits, whatever is written behind it. -/
theorem stepsOver_of_fits (hescaping : Escaping escape) (hnewline : escape '\n' = ['\n'])
    (hfits : piece.Fits escape rest) (hchars : source.chars = before ++ (piece.source ++ rest))
    (hend : (before.length + piece.source.length : Nat) ≤ source.contentEnd) (text : List Char) :
    source.StepsOver false escape before piece text := by
  cases piece with
  | itself c =>
      rw [CharSource.source, List.length_singleton] at hend
      exact stepsOver_itself hescaping hfits.2 hchars (by omega) text
  | lineEnd =>
      simp only [CharSource.source, List.length_cons, List.length_nil] at hend
      exact stepsOver_lineEnd hnewline hchars (by omega) text
  | reference body c =>
      have hsource : (CharSource.reference body c).source.length = body.length + 2 := by
        simp [CharSource.source]
      rw [hsource] at hend
      refine stepsOver_reference hescaping hfits ?_ hend text
      rw [hchars]
      simp [CharSource.source]

theorem stepsOver_of_fit (hescaping : Escaping escape) (hnewline : escape '\n' = ['\n'])
    {front back : List CharSource} (hfit : CharSource.Fit escape (front ++ piece :: back) rest)
    (hsource : source.chars =
      before ++ ((front ++ piece :: back).flatMap CharSource.source ++ rest))
    (hend : (before.length + ((front ++ piece :: back).flatMap CharSource.source).length : Nat) ≤
      source.contentEnd) (text : List Char) :
    source.StepsOver false escape (before ++ front.flatMap CharSource.source) piece text := by
  rw [List.flatMap_append, List.flatMap_cons] at hsource hend
  refine stepsOver_of_fits hescaping hnewline hfit.fits (by rw [hsource]; simp) ?_ text
  simp only [List.length_append] at hend ⊢
  omega

/-- Pieces that a table steps over one after another. -/
theorem corrections_append
    (hsteps : ∀ front piece back, pieces = front ++ piece :: back →
      source.StepsOver keeps escape (before ++ front.flatMap CharSource.source) piece
        (back.flatMap (CharSource.written escape) ++ text)) (added : Int) :
    source.corrections keeps (pieces.flatMap (CharSource.written escape) ++ text) 0 before.length
        added =
      let written := (pieces.flatMap (CharSource.written escape)).length
      let passed := (pieces.flatMap CharSource.source).length
      let after := source.corrections keeps text 0 (before.length + passed : Nat)
        (added + written - passed)
      (CharSource.entries escape pieces added ++ after.1, after.2) := by
  -- By induction on the pieces; what is read before a piece only changes where it begins and how
  -- much longer the written side is by then.
  induction pieces generalizing before added with
  | nil => simp [CharSource.entries, CharSource.leads]
  | cons piece pieces ih =>
      have hpiece := hsteps [] piece pieces rfl added
      rw [List.flatMap_nil, List.append_nil] at hpiece
      have hothers : ∀ front other back, pieces = front ++ other :: back →
          source.StepsOver keeps escape
            (before ++ piece.source ++ front.flatMap CharSource.source) other
            (back.flatMap (CharSource.written escape) ++ text) := by
        rintro front other back rfl
        have hother := hsteps (piece :: front) other back rfl
        rwa [List.flatMap_cons, ← List.append_assoc] at hother
      have hrest := ih hothers (added + (piece.written escape).length - piece.source.length)
      rw [List.length_append] at hrest
      have hadded : ∀ w s : Nat,
          added + ((piece.written escape).length : Int) - (piece.source.length : Nat) + w - s =
            added + ((piece.written escape).length + w : Nat) -
              (piece.source.length + s : Nat) := by
        intro w s
        omega
      rw [List.flatMap_cons, List.append_assoc, hpiece, hrest]
      simp only [hadded, CharSource.entries_cons, List.flatMap_cons, List.length_append,
        List.append_assoc, Nat.add_assoc]

/-- The table of a text leads every character to the place of its piece. -/
theorem corrections_of_steps
    (hsteps : ∀ front piece back, pieces = front ++ piece :: back →
      source.StepsOver keeps escape (before ++ front.flatMap CharSource.source) piece
        (back.flatMap (CharSource.written escape)))
    (hlead : ∀ piece ∈ pieces, ∀ relative < (piece.written escape).length,
      piece.lead relative < piece.source.length) (added : Int) :
    let text := pieces.flatMap (CharSource.written escape)
    let table := source.corrections keeps text 0 before.length added
    table.2 = added + text.length - (pieces.flatMap CharSource.source).length ∧
      table.1.length = text.length ∧
      ∀ (k place : Nat),
        (Passage.join (pieces.map (CharSource.passage escape))).leads[k]? = some (some place) →
          place < (pieces.flatMap CharSource.source).length ∧
            table.1[k]? = some ((place : Int) - k - added) := by
  intro text table
  have htable : table = (CharSource.entries escape pieces added,
      added + text.length - (pieces.flatMap CharSource.source).length) := by
    have happend := @corrections_append source before [] keeps escape pieces
      (by simpa only [List.append_nil] using hsteps) added
    simpa only [List.append_nil, corrections] using happend
  rw [htable]
  refine ⟨rfl, CharSource.length_entries pieces added, fun k place hentry => ?_⟩
  rw [CharSource.join_eq, List.getElem?_map, Option.map_eq_some_iff] at hentry
  obtain ⟨inner, hinner, heq⟩ := hentry
  obtain rfl : inner = place := Option.some.inj heq
  refine ⟨CharSource.lt_of_mem_leads hlead (List.mem_of_getElem? hinner), ?_⟩
  rw [CharSource.entries, List.getElem?_mapIdx, hinner, Option.map_some]

/-- The table of a text whose pieces fit. -/
theorem corrections_pieces (hescaping : Escaping escape) (hnewline : escape '\n' = ['\n'])
    (hfit : CharSource.Fit escape pieces rest)
    (hsource : source.chars = before ++ (pieces.flatMap CharSource.source ++ rest))
    (hend : (before.length + (pieces.flatMap CharSource.source).length : Nat) ≤
      source.contentEnd) (added : Int) :
    let text := pieces.flatMap (CharSource.written escape)
    let table := source.corrections false text 0 before.length added
    table.2 = added + text.length - (pieces.flatMap CharSource.source).length ∧
      table.1.length = text.length ∧
      ∀ (k place : Nat),
        (Passage.join (pieces.map (CharSource.passage escape))).leads[k]? = some (some place) →
          place < (pieces.flatMap CharSource.source).length ∧
            table.1[k]? = some ((place : Int) - k - added) := by
  refine corrections_of_steps ?_ (fun piece hmem _ => hfit.lead_lt hmem) added
  rintro front piece back rfl
  exact stepsOver_of_fit hescaping hnewline hfit hsource hend _

end Source

end Provenance.Markup
