import Provenance.Script.Value

/-! # Reduction of settings scripts

Before a script is run it is reduced. Constants with a known value stand for that value,
whatever fields they get afterwards; operators between literals are carried out; and what
cannot have an effect is left out, even if it would fail: an unknown variable is only noticed
where its value is used. The last statement is left out only if it has no value.
-/

namespace Provenance.Script

mutual

/-- Whether nothing has to be worked out to know what the expression stands for. Variables
    count if `names` says so. -/
def Expr.isInert (names : Bool) : Expr → Bool
  | .var _ => names
  | .list items => allInert names items
  | .map entries => entriesInert names entries
  | .field _ _ => false
  | .call _ _ => false
  | .negate _ => false
  | .binary _ _ _ => false
  | _ => true

/-- Whether all of the expressions are inert. -/
def allInert (names : Bool) : List Expr → Bool
  | [] => true
  | item :: rest => item.isInert names && allInert names rest

/-- Whether the expressions of all entries are inert. -/
def entriesInert (names : Bool) : List (String × Expr) → Bool
  | [] => true
  | (_, item) :: rest => item.isInert names && entriesInert names rest

end

/-- Whether the expression stands for the same value everywhere. -/
def Expr.isConstant (e : Expr) : Bool := e.isInert false

/-- Whether the expression has no effect. -/
def Expr.isPure (e : Expr) : Bool := e.isInert true

/-- The number or the text of a literal. -/
def Expr.literal? : Expr → Option Value
  | .int n => some (.int n)
  | .real x => some (.real x)
  | .char c => some (.char c)
  | .text s => some (.text s)
  | _ => none

/-- The literal of a number or a text. -/
def Expr.ofValue? : Value → Option Expr
  | .int n => some (.int n)
  | .real x => some (.real x)
  | .char c => some (.char c)
  | .text s => some (.text s)
  | _ => none

/-- The literal that an operator makes of two literals, both of them numbers or both text. -/
def Expr.carryOut? (op : Operator) (left right : Expr) : Option Expr := do
  let a ← left.literal?
  let b ← right.literal?
  if a.number?.isSome = b.number?.isSome then Expr.ofValue? (← Value.apply op a b) else none

/-- The names that are defined, innermost first, and what they stand for if that is known. -/
abbrev Known := List (String × Option Expr)

/-- What a name is known to stand for. -/
def Known.get? (name : String) (known : Known) : Option Expr :=
  (known.find? (·.1 = name)).bind (·.2)

mutual

/-- The expression with everything in it carried out that is known. In the object of a field
    (`inner`), a variable by itself is kept, and so is a map; else a field of a map that has no
    effect is the one entry of the map. -/
def Expr.reduce (known : Known) (inner : Bool) : Expr → Expr
  | .var name => if inner then .var name else (known.get? name).getD (.var name)
  | .field (.map entries) name =>
    let reduced := reduceEntries known entries
    if inner || !entriesInert true entries then .field (.map reduced) name
    else ((reduced.find? (·.1 = name)).map (·.2)).getD .unit
  | .field object name => .field (object.reduce known true) name
  | .list items => .list (reduceItems known items)
  | .map entries => .map (reduceEntries known entries)
  | .negate operand => .negate (operand.reduce known false)
  | .binary op left right =>
    let left := left.reduce known false
    let right := right.reduce known false
    (Expr.carryOut? op left right).getD (.binary op left right)
  | e => e

/-- The items of a list, reduced. -/
def reduceItems (known : Known) : List Expr → List Expr
  | [] => []
  | item :: rest => item.reduce known false :: reduceItems known rest

/-- The entries of a map, reduced. -/
def reduceEntries (known : Known) : List (String × Expr) → List (String × Expr)
  | [] => []
  | (name, item) :: rest => (name, item.reduce known false) :: reduceEntries known rest

end

mutual

/-- Whether the statement has no effect. -/
def Statement.isPure : Statement → Bool
  | .evaluate value => value.isPure
  | .block body => allPure body
  | .choose condition yes no => condition.isPure && allPure yes && allPure no
  | _ => false

/-- Whether all of the statements are without effect. -/
def allPure : List Statement → Bool
  | [] => true
  | statement :: rest => statement.isPure && allPure rest

end

/-- Whether the statement defines a variable. -/
def Statement.isDefinition : Statement → Bool
  | .define _ _ _ => true
  | _ => false

/-- The statement that does nothing. -/
def Statement.nothing : Statement := .block []

/-- Whether nothing is left of the statement at the end of its block: it has neither a value nor
    an effect. A definition has an effect only in the outermost block, or if its value has
    one. -/
def Statement.isIdle (outermost : Bool) : Statement → Bool
  | .block body => body.isEmpty
  | .define _ _ value => !outermost && value.isPure
  | _ => false

/-- Whether the statement is an expression with variables. -/
def Statement.isOpen : Statement → Bool
  | .evaluate value => !value.isConstant
  | _ => false

/-- Leaves out the statements of a block that have no effect. The last one is left out only if
    it has no value, and so are definitions right before the end. -/
def prune (outermost : Bool) (body : List Statement) : List Statement :=
  match body.reverse with
  | [] => []
  | last :: before =>
    let before := before.filter (!·.isPure)
    let busy := before.dropWhile (Statement.isIdle outermost)
    if last.isIdle outermost then busy.reverse
    else if last.isPure && !last.isOpen then (last :: busy).reverse
    else (last :: before).reverse

/-- What is known after a statement. -/
def Statement.extend (known : Known) : Statement → Known
  | .define name constant value =>
    let value := value.reduce known false
    (name, if constant && value.isConstant then some value else none) :: known
  | _ => known

/-- The statements of a block as one statement. -/
def Statement.ofBody : List Statement → Statement
  | [.define name constant value] => .block [.define name constant value]
  | [statement] => statement
  | body => .block body

mutual

/-- The statements that take the place of a statement. A block without definitions of its own
    is dissolved. A variable that becomes the result of an operator on itself is updated. -/
def Statement.reduce (known : Known) : Statement → List Statement
  | .define name constant value => [.define name constant (value.reduce known false)]
  | .assign name [] (.binary op (.var other) operand) =>
    if other = name then [.update name op (operand.reduce known false)]
    else [.assign name [] ((Expr.binary op (.var other) operand).reduce known false)]
  | .assign name path value => [.assign name path (value.reduce known false)]
  | .update name op operand => [.update name op (operand.reduce known false)]
  | .evaluate value => [.evaluate (value.reduce known false)]
  | .fail value => [.fail (value.reduce known false)]
  | .block body =>
    let reduced := reduceAll known body
    if body.any Statement.isDefinition then [.ofBody (prune false reduced)] else reduced
  | .choose condition yes no =>
    let condition := condition.reduce known false
    let yes := prune false (reduceAll known yes)
    let no := prune false (reduceAll known no)
    if yes.isEmpty && no.isEmpty then
      [if condition.isPure then .nothing else .evaluate condition]
    else
      match condition with
      | .bool b => [.block (if b then yes else no)]
      | condition => [.choose condition yes no]

/-- The statements that take the place of the statements of a block. -/
def reduceAll (known : Known) : List Statement → List Statement
  | [] => []
  | statement :: rest => statement.reduce known ++ reduceAll (statement.extend known) rest

end

/-- The statements of a script as they are run. -/
def reduce (body : List Statement) : List Statement := prune true (reduceAll [] body)

end Provenance.Script
