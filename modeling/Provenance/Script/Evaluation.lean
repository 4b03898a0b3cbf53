import Provenance.Script.Parser
import Provenance.Script.Value

/-! # Running settings scripts

Statements run one after another over the variables that are defined. What a block defines
is gone after it; what it assigns to variables outside stays. What a constant holds when it
is defined never changes, but it can get further fields. No functions are defined, so every
call fails.
-/

namespace Provenance.Script

/-- A variable and what it holds. -/
structure Variable where
  name : String
  value : Value
  /-- What a constant was defined as. -/
  fixed : Option Value

/-- The variables, innermost first. -/
abbrev Scope := List Variable

/-- What the innermost variable of a name holds. -/
def Scope.value? (name : String) (scope : Scope) : Option Value :=
  (scope.find? (·.name = name)).map Variable.value

/-- Changes the innermost variable of a name in the place that is reached through fields,
    unless a constant was defined with something there. -/
def Scope.assign (name : String) (path : List String) (change : Value → Option Value) :
    Scope → Option Scope
  | [] => none
  | known :: rest =>
    if known.name = name then
      if known.fixed.any (·.has path) then none
      else (change known.value).map fun value => { known with value } :: rest
    else (assign name path change rest).map (known :: ·)

mutual

/-- What an expression stands for; `none` if it fails. -/
def Expr.evaluate (scope : Scope) : Expr → Option Value
  | .unit => some .unit
  | .bool b => some (.bool b)
  | .int n => some (.int n)
  | .real x => some (.real x)
  | .char c => some (.char c)
  | .text s => some (.text s)
  | .list items => (evaluateItems scope items).map .list
  | .map entries => (evaluateEntries scope entries).map .map
  | .var name => scope.value? name
  | .field object name => do (← object.evaluate scope).field? name
  | .call _ _ => none
  | .negate operand => do (← operand.evaluate scope).negate
  | .binary op left right => do Value.apply op (← left.evaluate scope) (← right.evaluate scope)

/-- What the items of a list stand for. -/
def evaluateItems (scope : Scope) : List Expr → Option (List Value)
  | [] => some []
  | item :: rest => do
    let value ← item.evaluate scope
    pure (value :: (← evaluateItems scope rest))

/-- What the entries of a map stand for. -/
def evaluateEntries (scope : Scope) : List (String × Expr) → Option (Named Value)
  | [] => some []
  | (name, item) :: rest => do
    let value ← item.evaluate scope
    pure ((name, value) :: (← evaluateEntries scope rest))

end

/-- The variables of the outer scope, as they are after a block. -/
def Scope.leave (outer inner : Scope) : Scope := inner.drop (inner.length - outer.length)

mutual

/-- The variables after a statement; `none` if it fails. -/
def Statement.run (scope : Scope) : Statement → Option Scope
  | .define name constant value => do
    let value ← value.evaluate scope
    pure ({ name, value, fixed := if constant then some value else none } :: scope)
  | .assign name path value => do
    let value ← value.evaluate scope
    scope.assign name path (value.replaceAt path)
  | .update name op operand => do
    let operand ← operand.evaluate scope
    scope.assign name [] (Value.update op · operand)
  | .evaluate value => (value.evaluate scope).map fun _ => scope
  | .fail _ => none
  | .block body => (runAll scope body).map scope.leave
  | .choose condition yes no => do
    match ← condition.evaluate scope with
    | .bool true => (runAll scope yes).map scope.leave
    | .bool false => (runAll scope no).map scope.leave
    | _ => none

/-- The variables after several statements. -/
def runAll (scope : Scope) : List Statement → Option Scope
  | [] => some scope
  | statement :: rest => do runAll (← statement.run scope) rest

end

end Provenance.Script
