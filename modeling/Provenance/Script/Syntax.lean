/-! # Settings scripts

The syntax of the language that settings are written in: definitions, assignments,
conditions and failures, over numbers, text, lists and maps.
-/

namespace Provenance.Script

/-- An operator between two operands. -/
inductive Operator where
  | add
  | sub
  | mul
  | div
  deriving DecidableEq, Repr, Inhabited

/-- How tightly an operator binds. -/
def Operator.strength : Operator → Nat
  | add => 1
  | sub => 1
  | mul => 2
  | div => 2

/-- An expression. -/
inductive Expr where
  | unit
  | bool (value : Bool)
  | int (value : Int64)
  | real (value : Float)
  | char (value : Char)
  | text (value : String)
  | list (items : List Expr)
  /-- A map; no two entries have the same name. -/
  | map (entries : List (String × Expr))
  | var (name : String)
  | field (object : Expr) (name : String)
  /-- The call of a function. That of a method has the object as its first argument. -/
  | call (function : String) (arguments : List Expr)
  | negate (operand : Expr)
  | binary (operator : Operator) (left right : Expr)
  deriving Inhabited

/-- A statement. -/
inductive Statement where
  /-- Defines a variable, which may hide another one of its name. -/
  | define (name : String) (constant : Bool) (value : Expr)
  /-- Changes a variable, or what is reached from it through fields. -/
  | assign (name : String) (path : List String) (value : Expr)
  /-- Changes a variable to what an operator makes of it and an operand. -/
  | update (name : String) (operator : Operator) (operand : Expr)
  | evaluate (value : Expr)
  | fail (value : Expr)
  | block (body : List Statement)
  | choose (condition : Expr) (yes no : List Statement)
  deriving Inhabited

/-- The variable and the fields that an expression names, if it can be assigned to. -/
def Expr.target? : Expr → Option (String × List String)
  | .var name => some (name, [])
  | .field object name => object.target?.map fun (root, path) => (root, path ++ [name])
  | _ => none

/-- Whether the expression can stand for a truth value. -/
def Expr.canBeCondition : Expr → Bool
  | .unit => false
  | .int _ => false
  | .real _ => false
  | .char _ => false
  | .text _ => false
  | .list _ => false
  | .map _ => false
  | _ => true

/-- The integer, if it is one of 64 bits. -/
def word? (n : Int) : Option Int64 :=
  if -0x8000000000000000 ≤ n ∧ n < 0x8000000000000000 then some (.ofInt n) else none

/-- The opposite of an expression. That of a number literal is a literal; if the opposite of
    an integer literal has no integer, it is floating-point. -/
def Expr.opposite : Expr → Expr
  | .int n =>
    match word? (-n.toInt) with
    | some opposite => .int opposite
    | none => .real (-Float.ofInt n.toInt)
  | .real x => .real (-x)
  | operand => .negate operand

/-- The names that are defined, innermost first, and whether they are constant. -/
abbrev Names := List (String × Bool)

mutual

/-- Whether a statement never assigns to the name of a constant as a whole; also gives the
    names that are defined after it. -/
def Statement.respects (names : Names) : Statement → Bool × Names
  | .define name constant _ => (true, (name, constant) :: names)
  | .assign name [] _ => ((names.find? (·.1 = name)).all (!·.2), names)
  | .update name _ _ => ((names.find? (·.1 = name)).all (!·.2), names)
  | .block body => (respectsAll names body, names)
  | .choose _ yes no => (respectsAll names yes && respectsAll names no, names)
  | _ => (true, names)

/-- Whether none of the statements assigns to the name of a constant. -/
def respectsAll (names : Names) : List Statement → Bool
  | [] => true
  | statement :: rest =>
    let (fine, names) := statement.respects names
    fine && respectsAll names rest

end

end Provenance.Script
