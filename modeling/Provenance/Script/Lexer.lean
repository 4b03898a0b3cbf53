import Provenance.Json.Tree
import Provenance.Script.Syntax

/-! # Tokens of settings scripts

Blanks and comments stand between tokens. A minus sign right before a digit belongs to the
number, unless an operand stands before it.
-/

namespace Provenance.Script

/-- The smallest unit of a script. -/
inductive Token where
  | word (name : String)
  | int (value : Int64)
  | real (value : Float)
  | char (value : Char)
  | text (value : String)
  /-- Two parentheses with nothing between them. -/
  | unit
  /-- A number sign and an opening brace. -/
  | openMap
  | symbol (c : Char)
  deriving Inhabited

/-- The words of the language. -/
def keywords : List String :=
  ["let", "const", "if", "else", "switch", "throw", "try", "catch", "true", "false", "while",
    "loop", "do", "until", "for", "in", "continue", "break", "return", "fn", "private", "import",
    "export", "as"]

/-- The words that are kept for later and name nothing. -/
def spareWords : List String :=
  ["var", "static", "shared", "goto", "match", "case", "public", "protected", "new", "use", "with",
    "is", "module", "package", "super", "thread", "spawn", "go", "await", "async", "sync", "yield",
    "default", "void", "null", "nil", "this"]

/-- The functions whose names name nothing else but may also stand after a point. -/
def builtInMethods : List String := ["call", "curry", "type_of", "is_shared"]

/-- The functions whose names name nothing else. -/
def builtInFunctions : List String :=
  ["print", "debug", "eval", "Fn", "is_def_fn", "is_def_var"] ++ builtInMethods

/-- The words that are no names. -/
def reservedWords : List String := keywords ++ spareWords ++ builtInFunctions

/-- Whether an operand can end with the token, so that a minus sign after it subtracts. -/
def Token.endsOperand : Token → Bool
  | .word name => name ∉ ["if", "throw", "else", "let", "const"]
  | .int _ => true
  | .real _ => true
  | .char _ => true
  | .text _ => true
  | .unit => true
  | .openMap => false
  | .symbol c => c = ')' || c = ']' || c = '\x7d'

/-- What may stand between tokens. -/
def blanks : List Char := [' ', '\t', '\n', '\x0c', '\r']

/-- What follows a comment that goes on to the end of its line. -/
def afterLine (text : List Char) : List Char := text.dropWhile fun c => c ≠ '\n' && c ≠ '\r'

/-- What follows a comment between delimiters, in which there may be others. One that is not
    closed goes on to the end. -/
def afterComment : (depth : Nat) → List Char → List Char
  | depth, '/' :: '*' :: rest => afterComment (depth + 1) rest
  | 0, '*' :: '/' :: rest => rest
  | depth + 1, '*' :: '/' :: rest => afterComment depth rest
  | depth, _ :: rest => afterComment depth rest
  | _, [] => []

/-- Whether a name can begin with the character. -/
def startsWord (c : Char) : Bool := c.isAlpha || c = '_'

/-- Whether a name can go on with the character. -/
def continuesWord (c : Char) : Bool := c.isAlphanum || c = '_'

/-- Whether the first character of a name that is not an underscore is a letter. -/
def isName (name : List Char) : Bool := ((name.dropWhile (· = '_')).head?).any Char.isAlpha

/-- Splits digits off the front of a text. Underscores between them are left out. -/
def splitNumeral (isDigit : Char → Bool) : List Char → List Char × List Char
  | [] => ([], [])
  | c :: rest =>
    if c = '_' then splitNumeral isDigit rest
    else if isDigit c then
      let (digits, rest) := splitNumeral isDigit rest
      (c :: digits, rest)
    else ([], c :: rest)

/-- The base that a letter after a zero stands for. -/
def base? (c : Char) : Option Nat :=
  if c = 'x' ∨ c = 'X' then some 16
  else if c = 'o' ∨ c = 'O' then some 8
  else if c = 'b' ∨ c = 'B' then some 2
  else none

/-- The value of a character as a digit of a base. -/
def digit? (base : Nat) (c : Char) : Option Nat := (Json.hexValue? c).filter (· < base)

/-- The number of digits of a base. -/
def ofDigits (base : Nat) (digits : List Char) : Nat :=
  digits.foldl (fun n c => base * n + (digit? base c).getD 0) 0

/-- A number in a base other than ten: a word of 64 bits, read as a signed one. -/
def basedNumber (base : Nat) (text : List Char) : Option (Token × List Char) :=
  let (digits, rest) := splitNumeral (fun c => (digit? base c).isSome) text
  let n := ofDigits base digits
  if digits.isEmpty || 0x10000000000000000 ≤ n then none
  else some (.int (UInt64.ofNat n).toInt64, rest)

/-- The digits after a point, if the point belongs to the number: a digit has to follow it, or
    something with which no name begins. -/
def fractionPart (text : List Char) : Option (List Char) × List Char :=
  match text with
  | '.' :: c :: rest =>
    if c.isDigit then
      let (digits, rest) := splitNumeral Char.isDigit (c :: rest)
      (some digits, rest)
    else if c = '.' || startsWord c then (none, text)
    else (some ['0'], c :: rest)
  | _ => (none, text)

/-- The exponent, if the letter for it belongs to the number: a digit or a sign has to follow
    it. An exponent has digits. -/
def exponentPart (text : List Char) : Option (Option (Bool × List Char) × List Char) :=
  let digits (negative : Bool) (text : List Char) :=
    match splitNumeral Char.isDigit text with
    | ([], _) => none
    | (digits, rest) => some (some (negative, digits), rest)
  match text with
  | e :: c :: rest =>
    if e ≠ 'e' && e ≠ 'E' then some (none, text)
    else if c = '+' then digits false rest
    else if c = '-' then digits true rest
    else if c.isDigit then digits false (c :: rest)
    else some (none, text)
  | _ => some (none, text)

/-- The floating-point number of a decimal. An exponent far out of range has no further
    effect. -/
def decimal (negative : Bool) (whole fraction : List Char) (exponent : Bool × List Char) :
    Float :=
  let digits := whole ++ fraction
  let shift : Int := min (ofDigits 10 exponent.2) (digits.length + 400)
  let exponent := (if exponent.1 then -shift else shift) - fraction.length
  let value := Float.ofScientific (ofDigits 10 digits) (exponent < 0) exponent.natAbs
  if negative then -value else value

/-- A number that begins with a digit: an integer if it is written as one and is one of 64
    bits, and floating-point otherwise. A minus sign belongs to decimal numbers only. -/
def number (negative : Bool) (text : List Char) : Option (Token × List Char) :=
  let (whole, rest) := splitNumeral Char.isDigit text
  let based := match rest with
    | c :: rest => if whole = ['0'] then (base? c).map (·, rest) else none
    | [] => none
  match based with
  | some (base, rest) => if negative then none else basedNumber base rest
  | none => do
    let (fraction, rest) := fractionPart rest
    let (exponent, rest) ← exponentPart rest
    let n := ofDigits 10 whole
    let integer := if fraction.isNone && exponent.isNone then
      word? (if negative then -(n : Int) else n) else none
    match integer with
    | some value => pure (.int value, rest)
    | none =>
      pure (.real (decimal negative whole (fraction.getD []) (exponent.getD (false, []))), rest)

/-- The text up to a closing delimiter, which stands for itself when it is doubled. It does not
    go on to another line. -/
def quoted (delimiter : Char) : List Char → Option (List Char × List Char)
  | [] => none
  | c :: rest =>
    if c = delimiter then
      match rest with
      | d :: more =>
        if d = delimiter then
          (quoted delimiter more).map fun (text, rest) => (delimiter :: text, rest)
        else some ([], rest)
      | [] => some ([], [])
    else if c = '\n' ∨ c = '\\' then none
    else (quoted delimiter rest).map fun (text, rest) => (c :: text, rest)

/-- The characters that are tokens by themselves. -/
def symbols : List Char :=
  ['(', ')', '[', ']', '\x7b', '\x7d', ',', ';', ':', '.', '=', '+', '-', '*', '/']

/-- Reads the tokens of a text; `previous` is the token before. Every step takes a character. -/
def tokensFrom : (fuel : Nat) → (previous : Option Token) → List Char → Option (List Token)
  | _, _, [] => some []
  | 0, _, _ => none
  | fuel + 1, previous, c :: rest =>
    let emit (read : Token × List Char) : Option (List Token) :=
      (tokensFrom fuel (some read.1) read.2).map (read.1 :: ·)
    if c ∈ blanks then tokensFrom fuel previous rest
    else if startsWord c then
      let name := (c :: rest).takeWhile continuesWord
      if isName name then
        emit (.word (String.ofList name), (c :: rest).dropWhile continuesWord)
      else none
    else if c.isDigit then (number false (c :: rest)).bind emit
    else if c = '"' then
      (quoted '"' rest).bind fun (text, rest) => emit (.text (String.ofList text), rest)
    else if c = '\'' then
      match quoted '\'' rest with
      | some ([d], rest) => if d = '\'' then none else emit (.char d, rest)
      | _ => none
    else
      match c, rest with
      | '/', '/' :: rest => tokensFrom fuel previous (afterLine rest)
      | '/', '*' :: rest => tokensFrom fuel previous (afterComment 0 rest)
      | '(', ')' :: rest => emit (.unit, rest)
      | '#', '\x7b' :: rest => emit (.openMap, rest)
      | '-', '-' :: _ => none
      | '-', d :: more =>
        if d.isDigit && !previous.any Token.endsOperand then (number true (d :: more)).bind emit
        else emit (.symbol '-', rest)
      | _, _ => if c ∈ symbols then emit (.symbol c, rest) else none

/-- The tokens of a script; `none` if it does not consist of tokens. -/
def tokens (script : String) : Option (List Token) :=
  tokensFrom script.length none script.toList

end Provenance.Script
