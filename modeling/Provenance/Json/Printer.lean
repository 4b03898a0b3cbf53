import Provenance.Json.Number

/-! # Writing JSON

Two forms: compact, without any space, and spread over lines, two columns deeper at every
level. In text only the quote, the backslash and the control characters are escaped.
-/

namespace Provenance.Json

/-- A hexadecimal digit, lower case. -/
def hexDigit (n : Nat) : Char := Nat.digitChar n

/-- The written form of one character between quotes. -/
def escapedChar (c : Char) : List Char :=
  if c = '"' then ['\\', '"']
  else if c = '\\' then ['\\', '\\']
  else if c = '\x08' then ['\\', 'b']
  else if c = '\t' then ['\\', 't']
  else if c = '\n' then ['\\', 'n']
  else if c = '\x0c' then ['\\', 'f']
  else if c = '\r' then ['\\', 'r']
  else if c.toNat < 32 then ['\\', 'u', '0', '0', hexDigit (c.toNat / 16), hexDigit (c.toNat % 16)]
  else [c]

/-- Text between quotes. -/
def stringText (s : String) : List Char := '"' :: s.toList.flatMap escapedChar ++ ['"']

/-- The text of a value that holds no other values. -/
def scalarText : Json → List Char
  | .null => "null".toList
  | .bool true => "true".toList
  | .bool false => "false".toList
  | .num n => n.text
  | .str s => stringText s
  | .arr _ => ['[', ']']
  | .obj _ => ['\x7b', '\x7d']

mutual

/-- The compact text of a value. -/
def compact : Json → List Char
  | .arr items => '[' :: compactItems items ++ [']']
  | .obj members => '\x7b' :: compactMembers members ++ ['\x7d']
  | scalar => scalarText scalar

/-- The compact texts of the items, with commas between them. -/
def compactItems : List Json → List Char
  | [] => []
  | [item] => compact item
  | item :: rest => compact item ++ ',' :: compactItems rest

/-- The compact texts of the members, with commas between them. -/
def compactMembers : List (String × Json) → List Char
  | [] => []
  | [(name, value)] => stringText name ++ ':' :: compact value
  | (name, value) :: rest => stringText name ++ ':' :: compact value ++ ',' :: compactMembers rest

end

/-- A new line with the given number of levels before its first character. -/
def newline (level : Nat) : List Char := '\n' :: List.replicate (2 * level) ' '

mutual

/-- The text of a value spread over lines, at the given level. -/
def spread (level : Nat) : Json → List Char
  | .arr (item :: rest) =>
    '[' :: newline (level + 1) ++ spread (level + 1) item ++ spreadItems level rest
  | .obj ((name, value) :: rest) =>
    '\x7b' :: newline (level + 1) ++ stringText name ++ ':' :: ' ' :: spread (level + 1) value
      ++ spreadMembers level rest
  | other => scalarText other

/-- The items after the first, and the end of the array. -/
def spreadItems (level : Nat) : List Json → List Char
  | [] => newline level ++ [']']
  | item :: rest =>
    ',' :: newline (level + 1) ++ spread (level + 1) item ++ spreadItems level rest

/-- The members after the first, and the end of the object. -/
def spreadMembers (level : Nat) : List (String × Json) → List Char
  | [] => newline level ++ ['\x7d']
  | (name, value) :: rest =>
    ',' :: newline (level + 1) ++ stringText name ++ ':' :: ' ' :: spread (level + 1) value
      ++ spreadMembers level rest

end

/-- The compact text of a value. -/
def render (value : Json) : String := String.ofList value.compact

/-- The text of a value spread over lines. -/
def renderSpread (value : Json) : String := String.ofList (value.spread 0)

end Provenance.Json
