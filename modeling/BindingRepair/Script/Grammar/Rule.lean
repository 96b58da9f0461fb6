/-
# Grammar rules

The constructs of the grammar that contain each other. The functions that read a construct take a
parser for every rule as an argument and call it where one construct contains another, so each of
them is defined without recursion; the grammar ties the knot in one place.
-/

import BindingRepair.Script.Grammar.Lookahead

namespace BindingRepair.Script.Grammar

/-- What an expression turns out to be, as far as declarations care. -/
inductive Shape
  /-- A function and nothing around it but parentheses. -/
  | function (node : NodeId)
  | other
deriving DecidableEq, Repr

/-- The function that an expression is. -/
def Shape.function? : Shape → Option NodeId
  | function node => some node
  | other => none

/-- The constructs that contain each other. -/
inductive Rule
  /-- A statement or declaration. -/
  | item
  /-- The same, without counting a level of nesting. -/
  | bareItem
  /-- An expression without commas; the flag excludes the operator `in`. -/
  | assignment (noIn : Bool)
  /-- Operands joined by operators that bind tighter than a precedence. -/
  | binary (precedence : Nat) (noIn : Bool)
  | unary
  /-- An operand with its accesses, calls and templates. -/
  | callee
  /-- An operand behind `new`, which is read. -/
  | construction
  /-- A name or pattern that declares bindings of a kind. -/
  | target (kind : BindingKind)
  | element
  | type
  /-- A type without unions, intersections and conditions around it. -/
  | typeOperand

/-- What reading a construct tells. -/
@[reducible]
def Rule.Result : Rule → Type
  | assignment _ | binary _ _ | unary | callee | construction => Shape
  | item | bareItem | target _ | element | type | typeOperand => Unit

/-- A parser for every rule. -/
abbrev Rules := (rule : Rule) → Parser rule.Result

/-! ### Lists of expressions -/

/-- Expressions with commas between them. -/
def expression (rules : Rules) (noIn : Bool) : Parser Shape := do
  let first ← rules (.assignment noIn)
  unless ← isAt "," do return first
  repeatWhile do
    unless ← eat "," do return false
    let _ ← rules (.assignment noIn)
    return true
  return .other

/-- An expression without commas whose shape does not matter. -/
def operand (rules : Rules) : Parser Unit := do
  let _ ← rules (.assignment false)

/-- An expression whose shape does not matter. -/
def anyExpression (rules : Rules) : Parser Unit := do
  let _ ← expression rules false

/-- A default or initial value. Nothing in it is exported. -/
def initializer (rules : Rules) : Parser Unit :=
  withExporting false (operand rules)

/-- A property key: a name, a literal or an expression in brackets. -/
def propertyKey (rules : Rules) : Parser Unit := do
  match ← currentKind with
  | .identifier | .string | .number | .privateName => bump
  | _ =>
    if ← isAt "[" then
      bump
      operand rules
      expect "]"
    else expected "property name"

/-- A property name behind a point. -/
def propertyName : Parser Unit := do
  match ← currentKind with
  | .identifier | .privateName => bump
  | _ => expected "property name"

end BindingRepair.Script.Grammar
