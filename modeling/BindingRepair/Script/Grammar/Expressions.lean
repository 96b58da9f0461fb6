/-
# Expressions

Expressions leave no nodes of their own; what counts are the identifiers, functions, classes and
elements in them.
-/

import BindingRepair.Script.Grammar.Elements
import BindingRepair.Script.Grammar.Functions

namespace BindingRepair.Script.Grammar

/-! ### Primary expressions -/

def arguments (rules : Rules) : Parser Unit := do
  expect "("
  repeatWhile do
    if ← isAt ")" then return false
    eatOptional "..."
    operand rules
    eat ","
  expect ")"

/-- The expressions of a template literal, whose head is read. -/
def templateRest (rules : Rules) : Parser Unit :=
  repeatWhile do
    anyExpression rules
    unless ← isAt "\x7d" do expected "\x7d"
    reread Token.asTemplateContinuation
    match ← currentKind with
    | .template .middle =>
      bump
      return true
    | .template .tail =>
      bump
      return false
    | _ => unexpected

def template (rules : Rules) : Parser Unit := do
  match ← currentKind with
  | .template .full => bump
  | .template .head =>
    bump
    templateRest rules
  | _ => unexpected

def arrayLiteral (rules : Rules) : Parser Unit := do
  expect "["
  repeatWhile do
    if ← isAt "]" then return false
    if ← eat "," then return true
    eatOptional "..."
    operand rules
    unless ← isAt "]" do expect ","
    return true
  expect "]"

/-- The word before the name of an accessor or an asynchronous method, if there is one. -/
def accessorWord : Parser Unit := do
  let t ← currentToken
  if t.isWord && ["get", "set", "async"].contains t.text then
    let next ← peek
    if startsPropertyName next || next.isPunctuator "*" then bump

/-- A property or method of an object literal. A name alone refers to its binding. -/
def objectMember (rules : Rules) : Parser Unit := do
  accessorWord
  let generator ← eat "*"
  let key ← currentToken
  if key.kind == .identifier && !generator then
    bump
    if (← isAt "(") || (← isAt "<") then method rules false
    else if ← eat ":" then operand rules
    else
      refer key
      if ← eat "=" then operand rules
  else
    propertyKey rules
    if (← isAt "(") || (← isAt "<") then method rules generator
    else
      expect ":"
      operand rules

def objectLiteral (rules : Rules) : Parser Unit := do
  expect "\x7b"
  commaSeparated "\x7d" do
    if ← eat "..." then operand rules else objectMember rules

/-- A call that loads a module, or a property of the word. -/
def importExpression (rules : Rules) : Parser Unit := do
  bump
  if ← eat "." then propertyName
  else if ← isAt "(" then arguments rules
  else unexpected

/-- A primary expression that begins with a name. -/
def primaryWord (rules : Rules) (t : Token) : Parser Shape := do
  if t.isWord then
    if t.text == "function" then return ← functionExpression rules false
    if t.text == "async" then
      if ← asyncFunctionAhead then return ← functionExpression rules true
    if t.text == "class" then
      classNode rules false true
      return .other
    if ["this", "null", "true", "false", "super"].contains t.text then
      bump
      return .other
    if t.text == "import" then
      importExpression rules
      return .other
    if isReservedWord t.text then unexpected
  refer t
  bump
  return .other

/-- A primary expression that begins with a punctuator. -/
def primaryMark (rules : Rules) (t : Token) : Parser Shape := do
  match t.text with
  | "(" =>
    bump
    let inner ← expression rules false
    expect ")"
    return inner
  | "[" => arrayLiteral rules
  | "\x7b" => objectLiteral rules
  | "/" | "/=" =>
    reread Token.asRegex
    unless t.asRegex.kind == .regex do unexpected
    bump
  | "<" => if ← allowsElements then rules .element else unexpected
  | "@" =>
    decorators rules
    classNode rules false true
  | _ => unexpected
  return .other

def primary (rules : Rules) : Parser Shape := do
  let t ← currentToken
  match t.kind with
  | .identifier => primaryWord rules t
  | .number | .string | .privateName =>
    bump
    return .other
  | .template _ =>
    template rules
    return .other
  | .punctuator => primaryMark rules t
  | _ => unexpected

/-! ### Accesses and calls -/

/-- An index in brackets, if there is one. -/
def eatIndex (rules : Rules) : Parser Bool := do
  if ← eat "[" then
    anyExpression rules
    expect "]"
    return true
  return false

/-- An access behind an optional chaining mark. -/
def optionalAccess (rules : Rules) : Parser Unit := do
  if ← isAt "(" then arguments rules
  else if ← eatIndex rules then return
  else if ← typeArguments then return
  else propertyName

/-- One access, call or template behind an operand. Answers whether there was one. -/
def access (rules : Rules) : Parser Bool := do
  if ← eat "." then
    propertyName
    return true
  if ← eat "?." then
    optionalAccess rules
    return true
  if ← eatIndex rules then return true
  if ← isAt "(" then
    arguments rules
    return true
  if (← currentToken).isTemplateStart then
    template rules
    return true
  if (← isTypedAt "!") && !(← currentToken).newlineBefore then
    bump
    return true
  typeArguments

/-- An operand with its accesses, calls and templates. -/
def callee (rules : Rules) : Parser Shape := do
  let first ←
    if ← isAtWord "new" then
      bump
      rules .construction
    else primary rules
  loop first fun shape => do
    if ← access rules then return .inl .other else return .inr shape

/-- One access behind the operand of `new`. -/
def constructorAccess (rules : Rules) : Parser Bool := do
  if ← eat "." then
    propertyName
    return true
  if ← eatIndex rules then return true
  if (← currentToken).isTemplateStart then
    template rules
    return true
  typeArguments

/-- What follows `new`: a property of the word, or an operand with its accesses and arguments. -/
def construction (rules : Rules) : Parser Shape := do
  if ← eat "." then
    propertyName
    return .other
  let _ ←
    if ← isAtWord "new" then
      bump
      rules .construction
    else primary rules
  repeatWhile (constructorAccess rules)
  if ← isAt "(" then arguments rules
  return .other

/-! ### Operators -/

/-- An operand that may be counted up or down behind it. -/
def updated (rules : Rules) : Parser Shape := do
  let shape ← rules .callee
  if ((← isAt "++") || (← isAt "--")) && !(← currentToken).newlineBefore then
    bump
    return .other
  return shape

/-- Whether the current token is an operator before its operand. -/
def isAtUnaryOperator : Parser Bool := do
  let t ← currentToken
  match t.kind with
  | .punctuator => return ["!", "~", "+", "-", "++", "--"].contains t.text
  | .identifier =>
    if t.isWord && ["typeof", "void", "delete"].contains t.text then return true
    if ← isAtWord "await" then awaitOperates else return false
  | _ => return false

def unary (rules : Rules) : Parser Shape := do
  if ← isAtUnaryOperator then
    bump
    let _ ← rules .unary
    return .other
  if (← isTypedAt "<") && !(← allowsElements) then
    bump
    rules .type
    closingAngle
    let _ ← rules .unary
    return .other
  updated rules

/-- A type operator and its type, whose operator is read. -/
def castType (rules : Rules) : Parser Unit := do
  unless ← eatWord "const" do rules .type

/-- One binary operator and its right operand. Answers whether there was one that binds tighter
than `precedence`. -/
def binaryStep (rules : Rules) (precedence : Nat) (noIn : Bool) : Parser Bool := do
  let t ← currentToken
  unless t.kind == .punctuator || t.isWord do return false
  if t.isWord then
    if (← isTypescript) && ["as", "satisfies"].contains t.text && !t.newlineBefore then
      if relationalPrecedence ≤ precedence then return false
      bump
      castType rules
      return true
    if t.text == "in" && noIn then return false
  match binaryPrecedence? t.text with
  | none => return false
  | some p =>
    if p ≤ precedence then return false
    bump
    let _ ← rules (.binary (if t.text == "**" then p - 1 else p) noIn)
    return true

def binary (rules : Rules) (precedence : Nat) (noIn : Bool) : Parser Shape := do
  let first ← rules .unary
  loop first fun shape => do
    if ← binaryStep rules precedence noIn then return .inl .other else return .inr shape

def conditional (rules : Rules) (noIn : Bool) : Parser Shape := do
  let test ← rules (.binary 0 noIn)
  unless ← eat "?" do return test
  operand rules
  expect ":"
  let _ ← rules (.assignment noIn)
  return .other

/-- What follows `yield` in a generator, which is the current token. -/
def yieldExpression (rules : Rules) (noIn : Bool) : Parser Shape := do
  bump
  if (← currentToken).newlineBefore || (← isAtEnd) then return .other
  let delegates ← eat "*"
  if delegates || startsExpression (← currentToken) then
    let _ ← rules (.assignment noIn)
  return .other

/-- Whether an arrow function begins with the current token, and whether with `async`. -/
def arrowAhead : Parser (Option Bool) := do
  let c ← read
  let t ← currentToken
  if t.isWord && t.text == "async" then
    let (next, after) ← peekTwo
    let single := next.kind == .identifier && after.isPunctuator "=>" && !after.newlineBefore
    let several ←
      if next.isPunctuator "(" then answer (opensArrowParameters c next.last) else pure false
    if !next.newlineBefore && (single || several) then return some true
  if t.isWord && namesBinding t then
    let next ← peek
    if next.isPunctuator "=>" && !next.newlineBefore then return some false
  if t.isPunctuator "(" then
    if ← answer (opensArrowParameters c t.last) then return some false
  if c.dialect.typescript && t.isPunctuator "<" then
    if ← answer (opensGenericArrow c t.last) then return some false
  return none

/-- An expression without commas. -/
def assignment (rules : Rules) (noIn : Bool) : Parser Shape := do
  if (← get).inGenerator && (← isAtWord "yield") then return ← yieldExpression rules noIn
  if let some isAsync ← arrowAhead then return ← arrowFunction rules isAsync noIn
  let left ← conditional rules noIn
  let t ← currentToken
  if t.kind == .punctuator && isAssignmentOperator t.text then
    bump
    let _ ← rules (.assignment noIn)
    return .other
  return left

end BindingRepair.Script.Grammar
