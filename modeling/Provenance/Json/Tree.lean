import Provenance.Json.Number

/-! # Reading JSON

Text is read into a tree that keeps every member of an object, repeated names included.
What is well formed but stands for no value is kept as `unreadable`: a number that is too
large, half of a surrogate pair, a container more than 127 levels deep, and an object
with such a name. A reader that passes over a member without looking at it does not mind
them; any other reader refuses them.
-/

namespace Provenance.Json

/-- What a JSON text says. -/
inductive Tree where
  | null
  | bool (value : Bool)
  | num (value : Number)
  | str (value : String)
  | arr (items : List Tree)
  | obj (members : List (String × Tree))
  | unreadable
  deriving Inhabited

/-- The four blank characters of JSON. -/
def isSpace (c : Char) : Bool := c = ' ' || c = '\t' || c = '\n' || c = '\r'

/-- The text without the blanks it begins with. -/
def skipSpace (text : List Char) : List Char := text.dropWhile isSpace

/-- The value of a hexadecimal digit of either case. -/
def hexValue? (c : Char) : Option Nat :=
  if '0' ≤ c ∧ c ≤ '9' then some (c.toNat - '0'.toNat)
  else if 'a' ≤ c ∧ c ≤ 'f' then some (c.toNat - 'a'.toNat + 10)
  else if 'A' ≤ c ∧ c ≤ 'F' then some (c.toNat - 'A'.toNat + 10)
  else none

/-- The number of four hexadecimal digits. -/
def hex4? (a b c d : Char) : Option Nat := do
  let a ← hexValue? a
  let b ← hexValue? b
  let c ← hexValue? c
  let d ← hexValue? d
  pure (((a * 16 + b) * 16 + c) * 16 + d)

/-- The character after a backslash, if it needs no digits. -/
def escape? (c : Char) : Option Char :=
  if c = '"' then some '"'
  else if c = '\\' then some '\\'
  else if c = '/' then some '/'
  else if c = 'b' then some '\x08'
  else if c = 'f' then some '\x0c'
  else if c = 'n' then some '\n'
  else if c = 'r' then some '\r'
  else if c = 't' then some '\t'
  else none

/-- A piece of text between quotes: a character, or half of a surrogate pair. -/
inductive Piece where
  | char (c : Char)
  | high (offset : Nat)
  | low (offset : Nat)

/-- What an escape with four digits stands for. -/
def Piece.ofUnit (n : Nat) : Piece :=
  if 0xD800 ≤ n ∧ n < 0xDC00 then .high (n - 0xD800)
  else if 0xDC00 ≤ n ∧ n < 0xE000 then .low (n - 0xDC00)
  else .char (Char.ofNat n)

/-- Reads what follows an opening quote: its pieces, and what follows the closing quote. -/
def pieces : List Char → Option (List Piece × List Char)
  | [] => none
  | '"' :: rest => some ([], rest)
  | '\\' :: 'u' :: a :: b :: c :: d :: rest => do
    let unit ← hex4? a b c d
    let (more, rest) ← pieces rest
    pure (.ofUnit unit :: more, rest)
  | '\\' :: c :: rest => do
    let c ← escape? c
    let (more, rest) ← pieces rest
    pure (.char c :: more, rest)
  | c :: rest =>
    if c.toNat < 32 ∨ c = '\\' then none else do
      let (more, rest) ← pieces rest
      pure (.char c :: more, rest)

/-- The text of the pieces, if every half of a surrogate pair is followed by its other half. -/
def joined : List Piece → Option (List Char)
  | [] => some []
  | .char c :: rest => (joined rest).map (c :: ·)
  | .high a :: .low b :: rest => (joined rest).map (Char.ofNat (0x10000 + 0x400 * a + b) :: ·)
  | _ => none

/-- Reads what follows an opening quote: the text, if the pieces have one, and what follows
    the closing quote. -/
def quotation (text : List Char) : Option (Option (List Char) × List Char) :=
  (pieces text).map fun (body, rest) => (joined body, rest)

/-- Splits the decimal digits off the front of a text. -/
def splitDigits (text : List Char) : List Char × List Char :=
  (text.takeWhile Char.isDigit, text.dropWhile Char.isDigit)

/-- The digits before the point: a single zero, or no zero in front. -/
def wholePart : List Char → Option (List Char × List Char)
  | [] => none
  | '0' :: rest => some (['0'], rest)
  | c :: rest => if c.isDigit then some (splitDigits (c :: rest)) else none

/-- The digits after the point, if there is one. -/
def fractionPart : List Char → Option (List Char × List Char)
  | '.' :: rest =>
    match splitDigits rest with
    | ([], _) => none
    | split => some split
  | text => some ([], text)

/-- The digits of an exponent. -/
def exponentDigits (negative : Bool) (text : List Char) :
    Option (Option (Bool × List Char) × List Char) :=
  match splitDigits text with
  | ([], _) => none
  | (digits, rest) => some (some (negative, digits), rest)

/-- The exponent, if there is one. -/
def exponentPart : List Char → Option (Option (Bool × List Char) × List Char)
  | c :: rest =>
    if c = 'e' ∨ c = 'E' then
      match rest with
      | '+' :: rest => exponentDigits false rest
      | '-' :: rest => exponentDigits true rest
      | rest => exponentDigits false rest
    else some (none, c :: rest)
  | [] => some (none, [])

/-- Reads a number literal. -/
def literal (text : List Char) : Option (Number.Literal × List Char) := do
  let (negative, text) := match text with
    | '-' :: rest => (true, rest)
    | text => (false, text)
  let (whole, text) ← wholePart text
  let (fraction, text) ← fractionPart text
  let (exponent, text) ← exponentPart text
  pure (⟨negative, whole, fraction, exponent⟩, text)

/-- What a number literal says. -/
def Tree.ofLiteral (l : Number.Literal) : Tree :=
  match Number.ofLiteral? l with
  | some n => .num n
  | none => .unreadable

/-- What text between quotes says. -/
def Tree.ofQuotation : Option (List Char) → Tree
  | some s => .str (String.ofList s)
  | none => .unreadable

/-- Containers may be this deep. -/
def deepest : Nat := 127

/-- The members, if all their names stand for text. -/
def readableNames (members : List (Option (List Char) × Tree)) : Option (List (String × Tree)) :=
  members.mapM fun (name, value) => name.map fun name => (String.ofList name, value)

/-- An array at the given depth. -/
def Tree.array (depth : Nat) (items : List Tree) : Tree :=
  if depth ≤ deepest then .arr items else .unreadable

/-- An object at the given depth. -/
def Tree.object (depth : Nat) (members : List (Option (List Char) × Tree)) : Tree :=
  if depth ≤ deepest then
    match readableNames members with
    | some members => .obj members
    | none => .unreadable
  else .unreadable

mutual

/-- Reads a value inside `depth` containers; the text may begin with blanks. -/
def Tree.value (fuel depth : Nat) (text : List Char) : Option (Tree × List Char) :=
  match fuel with
  | 0 => none
  | fuel + 1 =>
    match skipSpace text with
    | 'n' :: 'u' :: 'l' :: 'l' :: rest => some (.null, rest)
    | 't' :: 'r' :: 'u' :: 'e' :: rest => some (.bool true, rest)
    | 'f' :: 'a' :: 'l' :: 's' :: 'e' :: rest => some (.bool false, rest)
    | '"' :: rest => (quotation rest).map fun (body, rest) => (.ofQuotation body, rest)
    | '[' :: rest =>
      match skipSpace rest with
      | ']' :: rest => some (.array (depth + 1) [], rest)
      | rest => (Tree.items fuel (depth + 1) rest).map fun (items, rest) =>
          (.array (depth + 1) items, rest)
    | '\x7b' :: rest =>
      match skipSpace rest with
      | '\x7d' :: rest => some (.object (depth + 1) [], rest)
      | rest => (Tree.members fuel (depth + 1) rest).map fun (members, rest) =>
          (.object (depth + 1) members, rest)
    | rest => (literal rest).map fun (l, rest) => (.ofLiteral l, rest)

/-- Reads the items of an array up to its end; there is at least one. -/
def Tree.items (fuel depth : Nat) (text : List Char) : Option (List Tree × List Char) :=
  match fuel with
  | 0 => none
  | fuel + 1 =>
    match Tree.value fuel depth text with
    | none => none
    | some (item, rest) =>
      match skipSpace rest with
      | ']' :: rest => some ([item], rest)
      | ',' :: rest => (Tree.items fuel depth rest).map fun (items, rest) => (item :: items, rest)
      | _ => none

/-- Reads the members of an object up to its end; there is at least one. -/
def Tree.members (fuel depth : Nat) (text : List Char) :
    Option (List (Option (List Char) × Tree) × List Char) :=
  match fuel with
  | 0 => none
  | fuel + 1 =>
    match skipSpace text with
    | '"' :: rest =>
      match quotation rest with
      | none => none
      | some (name, rest) =>
        match skipSpace rest with
        | ':' :: rest =>
          match Tree.value fuel depth rest with
          | none => none
          | some (value, rest) =>
            match skipSpace rest with
            | '\x7d' :: rest => some ([(name, value)], rest)
            | ',' :: rest => (Tree.members fuel depth rest).map fun (members, rest) =>
                ((name, value) :: members, rest)
            | _ => none
        | _ => none
    | _ => none

end

/-- Reads a whole text; nothing but blanks may follow the value. Every step of the reader
    takes a character or goes one level down, so twice the length is fuel enough. -/
def Tree.read (text : String) : Option Tree :=
  let chars := text.toList
  match Tree.value (2 * chars.length + 2) 0 chars with
  | some (tree, rest) => if (skipSpace rest).isEmpty then some tree else none
  | none => none

mutual

/-- The value that the tree stands for; of repeated names the last one counts. -/
def Tree.toJson : Tree → Option Json
  | .null => some .null
  | .bool b => some (.bool b)
  | .num n => some (.num n)
  | .str s => some (.str s)
  | .arr items => (Tree.toItems items).map .arr
  | .obj members => (Tree.toMembers members).map fun members => .obj (Named.distinct members)
  | .unreadable => none

/-- The values of the items. -/
def Tree.toItems : List Tree → Option (List Json)
  | [] => some []
  | item :: rest => do
    let item ← item.toJson
    let rest ← Tree.toItems rest
    pure (item :: rest)

/-- The values of the members. -/
def Tree.toMembers : List (String × Tree) → Option (List (String × Json))
  | [] => some []
  | (name, value) :: rest => do
    let value ← value.toJson
    let rest ← Tree.toMembers rest
    pure ((name, value) :: rest)

end

mutual

/-- The tree of a value. -/
def toTree : Json → Tree
  | .null => .null
  | .bool b => .bool b
  | .num n => .num n
  | .str s => .str s
  | .arr items => .arr (itemTrees items)
  | .obj members => .obj (memberTrees members)

/-- The trees of the items. -/
def itemTrees : List Json → List Tree
  | [] => []
  | item :: rest => item.toTree :: itemTrees rest

/-- The trees of the members. -/
def memberTrees : List (String × Json) → List (String × Tree)
  | [] => []
  | (name, value) :: rest => (name, value.toTree) :: memberTrees rest

end

/-- Reads a text as a value. -/
def read (text : String) : Option Json := (Tree.read text).bind Tree.toJson

end Provenance.Json
