import Provenance.Script.Lexer

/-! # Reading settings scripts

A reader takes what it reads off the front of a list of tokens. A statement that ends with
a brace needs no semicolon, and neither does the last one of its block. Statements and
expressions nest only so deep: every reader is told how deep it is, and where one part of a
script stands in another, the reader of the inner part is deeper.
-/

namespace Provenance.Script

/-- How deep a reader can be. -/
def greatestDepth : Nat := 32

/-- The depth below, if there is one. -/
def deeper (depth : Nat) : Option Nat := if depth < greatestDepth then some (depth + 1) else none

/-- Reads something off the front of a list of tokens. -/
abbrev Reader (α : Type) := List Token → Option (α × List Token)

/-- What follows a symbol that has to be there. -/
def expect (c : Char) : List Token → Option (List Token)
  | .symbol d :: rest => if d = c then some rest else none
  | _ => none

/-- Reads a word that can be a name. -/
def name : Reader String
  | .word name :: rest => if name ∈ reservedWords then none else some (name, rest)
  | _ => none

/-- Reads the name of an entry of a map, which may be quoted. -/
def entryName : Reader String
  | .text name :: rest => some (name, rest)
  | tokens => name tokens

/-- The operator of a symbol. -/
def Operator.ofSymbol : Char → Option Operator
  | '+' => some .add
  | '-' => some .sub
  | '*' => some .mul
  | '/' => some .div
  | _ => none

/-- Reads an operator that binds at least as tightly as `strength`. -/
def operator (strength : Nat) : Reader Operator
  | .symbol c :: rest => ((Operator.ofSymbol c).filter (strength ≤ ·.strength)).map (·, rest)
  | _ => none

/-- Reads what follows a point: a name, or the name of a function that is called. -/
def memberName : Reader String
  | .word name :: rest =>
    let called := match rest with
      | .unit :: _ => true
      | .symbol '(' :: _ => true
      | _ => false
    if name ∉ reservedWords || name ∈ builtInMethods && called then some (name, rest) else none
  | _ => none

mutual

/-- Reads an expression. -/
def expression (fuel depth : Nat) (tokens : List Token) : Option (Expr × List Token) :=
  match fuel with
  | 0 => none
  | fuel + 1 => do
    let depth ← deeper depth
    let (left, rest) ← operand fuel depth tokens
    operations fuel depth 0 left rest

/-- Reads what follows the left operand of operators that bind at least as tightly as
    `strength`. Every operator is deeper than the one before. -/
def operations (fuel depth strength : Nat) (left : Expr) (tokens : List Token) :
    Option (Expr × List Token) :=
  match fuel with
  | 0 => none
  | fuel + 1 =>
    match operator strength tokens with
    | none => some (left, tokens)
    | some (op, rest) => do
      let (right, rest) ← operand fuel depth rest
      let (right, rest) ← operations fuel depth (op.strength + 1) right rest
      operations fuel (← deeper depth) strength (.binary op left right) rest

/-- Reads an operand, with the minus signs before it and the fields after it. -/
def operand (fuel depth : Nat) (tokens : List Token) : Option (Expr × List Token) :=
  match fuel with
  | 0 => none
  | fuel + 1 =>
    match tokens with
    | .symbol '-' :: rest => do
      let (operand, rest) ← operand fuel (← deeper depth) rest
      pure (operand.opposite, rest)
    | tokens => do
      let (object, rest) ← atom fuel depth tokens
      fields fuel depth object rest

/-- Reads the fields and methods that are reached from an object. -/
def fields (fuel depth : Nat) (object : Expr) (tokens : List Token) :
    Option (Expr × List Token) :=
  match fuel with
  | 0 => none
  | fuel + 1 =>
    match tokens with
    | .symbol '.' :: rest => do
      let depth ← deeper depth
      let (field, rest) ← memberName rest
      match ← arguments? fuel depth rest with
      | some (arguments, rest) => fields fuel depth (.call field (object :: arguments)) rest
      | none => fields fuel depth (.field object field) rest
    | tokens => some (object, tokens)

/-- Reads the arguments of a call, if there is one. -/
def arguments? (fuel depth : Nat) (tokens : List Token) :
    Option (Option (List Expr × List Token)) :=
  match fuel with
  | 0 => none
  | fuel + 1 =>
    match tokens with
    | .unit :: rest => some (some ([], rest))
    | .symbol '(' :: .symbol ')' :: rest => some (some ([], rest))
    | .symbol '(' :: rest => do pure (some (← items fuel (← deeper depth) ')' rest))
    | _ => some none

/-- Reads an expression without operators and fields. -/
def atom (fuel depth : Nat) (tokens : List Token) : Option (Expr × List Token) :=
  match fuel with
  | 0 => none
  | fuel + 1 =>
    match tokens with
    | .int n :: rest => some (.int n, rest)
    | .real x :: rest => some (.real x, rest)
    | .char c :: rest => some (.char c, rest)
    | .text s :: rest => some (.text s, rest)
    | .word "true" :: rest => some (.bool true, rest)
    | .word "false" :: rest => some (.bool false, rest)
    | .unit :: rest => some (.unit, rest)
    | .symbol '(' :: rest => do
      let (inner, rest) ← expression fuel (← deeper depth) rest
      pure (inner, ← expect ')' rest)
    | .symbol '[' :: rest => do
      let (items, rest) ← items fuel (← deeper (← deeper depth)) ']' rest
      pure (.list items, rest)
    | .openMap :: rest => do
      let (entries, rest) ← entries fuel (← deeper (← deeper depth)) [] rest
      pure (.map entries, rest)
    | .word name :: rest => do
      match ← arguments? fuel depth rest with
      | some (arguments, rest) =>
        if name ∉ reservedWords || name ∈ builtInFunctions then
          pure (.call name arguments, rest)
        else none
      | none => if name ∈ reservedWords then none else pure (.var name, rest)
    | _ => none

/-- Reads expressions with commas between them up to a closing symbol. A comma may also follow
    the last one. -/
def items (fuel depth : Nat) (close : Char) (tokens : List Token) :
    Option (List Expr × List Token) :=
  match fuel with
  | 0 => none
  | fuel + 1 =>
    match expect close tokens with
    | some rest => some ([], rest)
    | none => do
      let (item, rest) ← expression fuel depth tokens
      match rest with
      | .symbol ',' :: rest =>
        let (more, rest) ← items fuel depth close rest
        pure (item :: more, rest)
      | rest => pure ([item], ← expect close rest)

/-- Reads the entries of a map up to its end. None may have a name that is known already. -/
def entries (fuel depth : Nat) (known : List String) (tokens : List Token) :
    Option (List (String × Expr) × List Token) :=
  match fuel with
  | 0 => none
  | fuel + 1 =>
    match expect '\x7d' tokens with
    | some rest => some ([], rest)
    | none => do
      let (name, rest) ← entryName tokens
      if name ∈ known then none
      let (value, rest) ← expression fuel depth (← expect ':' rest)
      match rest with
      | .symbol ',' :: rest =>
        let (more, rest) ← entries fuel depth (name :: known) rest
        pure ((name, value) :: more, rest)
      | rest => pure ([(name, value)], ← expect '\x7d' rest)

end

/-- Reads what follows the word of a definition. Without a value the variable holds the unit. -/
def definition (fuel depth : Nat) (constant : Bool) (tokens : List Token) :
    Option (Statement × List Token) := do
  let depth ← deeper (← deeper depth)
  let (name, rest) ← name tokens
  match rest with
  | .symbol '=' :: rest =>
    let (value, rest) ← expression fuel depth rest
    pure (.define name constant value, rest)
  | rest => pure (.define name constant .unit, rest)

/-- Whether a statement can end before these tokens. -/
def endsStatement : List Token → Bool
  | [] => true
  | .symbol c :: _ => c = ';' || c = '\x7d'
  | _ => false

/-- Reads a statement that has no braces of its own: a definition, a failure, an assignment or
    an expression. -/
def simple (fuel depth : Nat) : List Token → Option (Statement × List Token)
  | .word "let" :: rest => definition fuel depth false rest
  | .word "const" :: rest => definition fuel depth true rest
  | .word "throw" :: rest => do
    if endsStatement rest then pure (.fail .unit, rest)
    else
      let (value, rest) ← expression fuel (← deeper depth) rest
      pure (.fail value, rest)
  | tokens => do
    let depth ← deeper (← deeper depth)
    let (left, rest) ← expression fuel depth tokens
    match rest with
    | .symbol '=' :: rest =>
      let (name, path) ← left.target?
      let (value, rest) ← expression fuel (← deeper depth) rest
      pure (.assign name path value, rest)
    | rest => pure (.evaluate left, rest)

mutual

/-- Reads statements up to a closing brace or the end. -/
def statements (fuel depth : Nat) (tokens : List Token) :
    Option (List Statement × List Token) :=
  match fuel with
  | 0 => none
  | fuel + 1 =>
    match tokens with
    | [] => some ([], [])
    | .symbol '\x7d' :: _ => some ([], tokens)
    | .symbol ';' :: rest => statements fuel depth rest
    | .symbol '\x7b' :: _ => do
      let (body, rest) ← block fuel (← deeper depth) tokens
      let (more, rest) ← statements fuel depth rest
      pure (.block body :: more, rest)
    | .word "if" :: rest => do
      let (choice, rest) ← choice fuel (← deeper depth) rest
      let (more, rest) ← statements fuel depth rest
      pure (choice :: more, rest)
    | tokens => do
      let (statement, rest) ← simple fuel depth tokens
      if !endsStatement rest then none
      let (more, rest) ← statements fuel depth rest
      pure (statement :: more, rest)

/-- Reads statements between braces. -/
def block (fuel depth : Nat) (tokens : List Token) : Option (List Statement × List Token) :=
  match fuel with
  | 0 => none
  | fuel + 1 => do
    let (body, rest) ← statements fuel (← deeper depth) (← expect '\x7b' tokens)
    pure (body, ← expect '\x7d' rest)

/-- Reads what follows the word of a condition. -/
def choice (fuel depth : Nat) (tokens : List Token) : Option (Statement × List Token) :=
  match fuel with
  | 0 => none
  | fuel + 1 => do
    let below ← deeper depth
    let (condition, rest) ← expression fuel below tokens
    if !condition.canBeCondition then none
    let (yes, rest) ← block fuel below rest
    match rest with
    | .word "else" :: .word "if" :: rest =>
      let (other, rest) ← choice fuel below rest
      pure (.choose condition yes [other], rest)
    | .word "else" :: rest =>
      let (no, rest) ← block fuel below rest
      pure (.choose condition yes no, rest)
    | rest => pure (.choose condition yes [], rest)

end

/-- Reads a whole script. At most five readers are at work on the same token, so there is fuel
    enough. -/
def parse (script : String) : Option (List Statement) := do
  let tokens ← tokens script
  match ← statements (7 * tokens.length + 7) 0 tokens with
  | (body, []) => if respectsAll [] body then some body else none
  | _ => none

end Provenance.Script
