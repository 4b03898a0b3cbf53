import Mathlib.Data.List.Basic
import Provenance.Json.Printer
import Provenance.Json.Tree

/-! # Written scalars are read back

An integer of 64 bits, and any text between quotes, are read back from what is written for
them, whatever follows. After a number that has to be something that does not go on with it.
-/

namespace Provenance

/-- Whether the number is an integer of 64 bits, signed or not. -/
def Number.isWord : Number → Bool
  | .int n => decide (-0x8000000000000000 ≤ n ∧ n ≤ 0xFFFFFFFFFFFFFFFF)
  | .real _ => false

namespace Json

/-! ## Integers -/

/-- Whether a number that stands before the text ends there. -/
def endsNumber : List Char → Bool
  | [] => true
  | c :: _ => c = ',' || c = ']' || c = '\x7d'

theorem endsNumber_cons {c : Char} {rest : List Char} (hends : endsNumber (c :: rest)) :
    c = ',' ∨ c = ']' ∨ c = '\x7d' := by
  simpa [endsNumber, or_assoc] using hends

theorem splitDigits_append {digits rest : List Char} (hall : ∀ c ∈ digits, c.isDigit)
    (hends : endsNumber rest) : splitDigits (digits ++ rest) = (digits, rest) := by
  have hstops : rest.takeWhile Char.isDigit = [] ∧ rest.dropWhile Char.isDigit = rest := by
    cases rest with
    | nil => exact ⟨rfl, rfl⟩
    | cons c rest =>
        have hother : c.isDigit = false := by
          obtain rfl | rfl | rfl := endsNumber_cons hends <;> decide
        simp [hother]
  simp [splitDigits, List.takeWhile_append_of_pos hall, List.dropWhile_append_of_pos hall, hstops]

theorem isDigit_of_mem_toDigits {n : Nat} {c : Char} (hmem : c ∈ Nat.toDigits 10 n) :
    c.isDigit :=
  Nat.isDigit_of_mem_toDigits (by decide) (by decide) hmem

theorem eq_zero_of_head?_toDigits {n : Nat} (hzero : (Nat.toDigits 10 n).head? = some '0') :
    n = 0 := by
  induction n using Nat.strongRecOn with
  | ind n ih =>
      rw [Nat.toDigits_eq_if (by decide)] at hzero
      split at hzero
      · simpa using hzero
      · rw [List.head?_append_of_ne_nil _ Nat.toDigits_ne_nil] at hzero
        have := ih (n / 10) (by omega) hzero
        omega

theorem wholePart_toDigits (n : Nat) {rest : List Char} (hends : endsNumber rest) :
    wholePart (Nat.toDigits 10 n ++ rest) = some (Nat.toDigits 10 n, rest) := by
  have hsplit := splitDigits_append (fun c => isDigit_of_mem_toDigits (n := n)) hends
  cases hwritten : Nat.toDigits 10 n with
  | nil => exact absurd hwritten Nat.toDigits_ne_nil
  | cons c digits =>
      by_cases hzero : c = '0'
      · -- only zero begins with the digit zero, and then it is the only one
        subst hzero
        obtain rfl := eq_zero_of_head?_toDigits (n := n) (by rw [hwritten]; rfl)
        cases hwritten
        rfl
      · have hdigit : c.isDigit := isDigit_of_mem_toDigits (n := n) (by simp [hwritten])
        rw [hwritten, List.cons_append] at hsplit
        simp [wholePart, hdigit, hsplit]

theorem fractionPart_of_ends {rest : List Char} (hends : endsNumber rest) :
    fractionPart rest = some ([], rest) := by
  cases rest with
  | nil => rfl
  | cons c rest => obtain rfl | rfl | rfl := endsNumber_cons hends <;> rfl

theorem exponentPart_of_ends {rest : List Char} (hends : endsNumber rest) :
    exponentPart rest = some (none, rest) := by
  cases rest with
  | nil => rfl
  | cons c rest => obtain rfl | rfl | rfl := endsNumber_cons hends <;> rfl

theorem ofDigits_toDigits (n : Nat) : Number.ofDigits (Nat.toDigits 10 n) = n :=
  Nat.ofDigitChars_ten_toDigits

theorem literal_toDigits (n : Nat) {rest : List Char} (hends : endsNumber rest) :
    literal (Nat.toDigits 10 n ++ rest) = some (⟨false, Nat.toDigits 10 n, [], none⟩, rest) := by
  have hwhole := wholePart_toDigits n hends
  cases hwritten : Nat.toDigits 10 n with
  | nil => exact absurd hwritten Nat.toDigits_ne_nil
  | cons c digits =>
      have hdigit : c.isDigit := isDigit_of_mem_toDigits (n := n) (by simp [hwritten])
      have hsign : c ≠ '-' := by
        rintro rfl
        cases hdigit
      rw [hwritten, List.cons_append] at hwhole
      simp [literal, hsign, hwhole, fractionPart_of_ends hends, exponentPart_of_ends hends]

theorem literal_negative (n : Nat) {rest : List Char} (hends : endsNumber rest) :
    literal ('-' :: Nat.toDigits 10 n ++ rest) =
      some (⟨true, Nat.toDigits 10 n, [], none⟩, rest) := by
  simp [literal, wholePart_toDigits n hends, fractionPart_of_ends hends, exponentPart_of_ends hends]

/-- A written integer is read as a literal, and the literal says that integer. -/
theorem literal_text {n : Number} (hword : n.isWord) {rest : List Char} (hends : endsNumber rest) :
    (literal (n.text ++ rest)).map (fun (l, rest) => (Tree.ofLiteral l, rest)) =
      some (.num n, rest) := by
  cases n with
  | real f => cases hword
  | int n =>
      have hbounds : -0x8000000000000000 ≤ n ∧ n ≤ 0xFFFFFFFFFFFFFFFF := of_decide_eq_true hword
      cases n with
      | ofNat n =>
          have hsmall : n ≤ Number.greatest := by
            have : (n : Int) ≤ 0xFFFFFFFFFFFFFFFF := hbounds.2
            unfold Number.greatest
            omega
          have hreads : Number.ofLiteral? ⟨false, Nat.toDigits 10 n, [], none⟩ =
              some (.int (Int.ofNat n)) := by
            simp [Number.ofLiteral?, Number.Literal.isWhole, ofDigits_toDigits, hsmall]
          simp only [Number.text, Number.intText, literal_toDigits n hends, Option.map_some,
            Tree.ofLiteral, hreads]
      | negSucc n =>
          have hsmall : n + 1 ≤ 0x8000000000000000 := by omega
          have hreads : Number.ofLiteral? ⟨true, Nat.toDigits 10 (n + 1), [], none⟩ =
              some (.int (Int.negSucc n)) := by
            simp [Number.ofLiteral?, Number.Literal.isWhole, ofDigits_toDigits, hsmall,
              Int.negSucc_eq]
          simp only [Number.text, Number.intText, literal_negative (n + 1) hends, Option.map_some,
            Tree.ofLiteral, hreads]

theorem exists_text_cons {n : Number} (hword : n.isWord) :
    ∃ c text, n.text = c :: text ∧ (c.isDigit ∨ c = '-') := by
  cases n with
  | real f => cases hword
  | int n =>
      cases n with
      | negSucc n => exact ⟨'-', _, rfl, .inr rfl⟩
      | ofNat n =>
          obtain ⟨c, text, hwritten⟩ := List.exists_cons_of_ne_nil (Nat.toDigits_ne_nil (n := n))
          exact ⟨c, text, hwritten, .inl (isDigit_of_mem_toDigits (n := n) (by simp [hwritten]))⟩

/-! ## Text between quotes -/

theorem hexValue?_hexDigit : ∀ n < 16, hexValue? (hexDigit n) = some n := by decide

/-- A control character without a short name is written by its code point. -/
theorem pieces_unit {c : Char} (hcontrol : c.toNat < 32) (rest : List Char) :
    pieces ('\\' :: 'u' :: '0' :: '0' :: hexDigit (c.toNat / 16) ::
      hexDigit (c.toNat % 16) :: rest) =
      (pieces rest).map fun (more, rest) => (.char c :: more, rest) := by
  have hunit : hex4? '0' '0' (hexDigit (c.toNat / 16)) (hexDigit (c.toNat % 16)) =
      some c.toNat := by
    have hzero : hexValue? '0' = some 0 := rfl
    have hhigh := hexValue?_hexDigit (c.toNat / 16) (by omega)
    have hlow := hexValue?_hexDigit (c.toNat % 16) (by omega)
    simp only [hex4?, hzero, hhigh, hlow, Option.bind_eq_bind, Option.bind_some, Option.pure_def]
    congr 1
    omega
  have hplain : Piece.ofUnit c.toNat = .char c := by
    rw [Piece.ofUnit, if_neg (by omega), if_neg (by omega), Char.ofNat_toNat]
  simp only [pieces, hunit, hplain, Option.bind_eq_bind, Option.bind_some, Option.pure_def]
  cases pieces rest <;> rfl

theorem pieces_escapedChar (c : Char) (rest : List Char) :
    pieces (escapedChar c ++ rest) =
      (pieces rest).map fun (more, rest) => (.char c :: more, rest) := by
  have hshort {d : Char} (hnamed : escape? d = some c) (hother : d ≠ 'u') :
      pieces ('\\' :: d :: rest) =
        (pieces rest).map fun (more, rest) => (.char c :: more, rest) := by
    rw [pieces]
    · simp only [hnamed, Option.bind_eq_bind, Option.bind_some, Option.pure_def]
      cases pieces rest <;> rfl
    · simp [hother]
  unfold escapedChar
  -- the seven characters with a short name
  iterate 7
    split
    · exact hshort (by subst_vars; rfl) (by decide)
  split
  · rename_i hcontrol
    exact pieces_unit hcontrol rest
  · rename_i hquote hbackslash _ _ _ _ _ hvisible
    rw [List.singleton_append, pieces]
    · rw [if_neg (by simp [hvisible, hbackslash])]
      cases pieces rest <;> rfl
    all_goals simp [hquote, hbackslash]

theorem pieces_stringText (s : List Char) (rest : List Char) :
    pieces (s.flatMap escapedChar ++ '"' :: rest) = some (s.map .char, rest) := by
  induction s with
  | nil => rfl
  | cons c s ih => simp [pieces_escapedChar, ih]

theorem joined_chars (s : List Char) : joined (s.map .char) = some s := by
  induction s with
  | nil => rfl
  | cons c s ih => simp [joined, ih]

/-- A written text is read back, up to its closing quote. -/
theorem quotation_stringText (s : List Char) (rest : List Char) :
    quotation (s.flatMap escapedChar ++ '"' :: rest) = some (some s, rest) := by
  simp [quotation, pieces_stringText, joined_chars]

end Json

end Provenance
