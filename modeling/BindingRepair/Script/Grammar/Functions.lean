/-
# Functions and classes

Declarations and expressions of functions, methods and classes, with the scopes that they open.
-/

import BindingRepair.Script.Grammar.Patterns

namespace BindingRepair.Script.Grammar

/-! ### Blocks -/

/-- Statements up to a closing brace, which is not read. -/
def statements (rules : Rules) : Parser Unit :=
  repeatWhile do
    if ← isAt "\x7d" then return false
    if ← isAtEnd then expected "\x7d"
    rules .item
    return true

/-- A block statement with a scope of its own. -/
def block (rules : Rules) : Parser Unit := do
  within .block (← currentStart) do
    expect "\x7b"
    inScope .block do
      statements rules
      bump

/-! ### Functions -/

/-- One parameter in parentheses. Answers whether another may follow. -/
def parameter (rules : Rules) : Parser Bool := do
  if ← isAt "@" then decorators rules
  if ← isTypescript then
    parameterModifiers
    if ← isAtWord "this" then
      bump
      if ← eat ":" then rules .type
      return ← eat ","
  let rest ← eat "..."
  rules (.target .param)
  if ← isTypescript then
    eatOptional "?"
    if ← eat ":" then rules .type
  unless rest do defaultValue rules
  eat ","

def parameters (rules : Rules) : Parser Unit := do
  expect "("
  repeatWhile do
    if ← isAt ")" then return false
    parameter rules
  expect ")"

/-- A function body in braces, in the scope of the function. -/
def functionBody (rules : Rules) (scope : ScopeId) : Parser FunctionBody := do
  let opening ← currentStart
  within .block opening do
    expect "\x7b"
    let directivesEnd ← directives
    let firstStatement ← if ← isAt "\x7d" then pure none else some <$> currentStart
    statements rules
    let closing ← currentStart
    bump
    return { scope, opening, closing, directivesEnd, firstStatement }

/-- Parameters, type of the result and body of a function. Only where there are types may the body
be missing. -/
def functionRest (rules : Rules) (generator : Bool) : Parser (Option FunctionBody) :=
  keepingScope <| withGenerator generator <| withExporting false do
    let scope ← enterScope .function
    typedAngles
    parameters rules
    typeAnnotation rules
    if ← isAt "\x7b" then some <$> functionBody rules scope
    else if ← isTypescript then
      consumeSemicolon
      return none
    else expected "\x7b"

/-- The words before the name of a function. Answers whether it is a generator. -/
def functionHead (isAsync : Bool) : Parser Bool := do
  if isAsync then bump
  expectWord "function"
  eat "*"

/-- A declared function. Its name belongs to the scope around it. -/
def functionDeclaration (rules : Rules) (isAsync nameless : Bool) : Parser Unit := do
  let start ← currentStart
  let generator ← functionHead isAsync
  let id ← openNode (.function {}) start
  let name ←
    if ← isAtBindingName then some <$> bindName .function
    else if nameless then pure none
    else unexpected
  let body ← functionRest rules generator
  setKind id (.function { name, body })
  closeNode id

/-- A function as an expression. Its name can be used only inside it. -/
def functionExpression (rules : Rules) (isAsync : Bool) : Parser Shape := do
  let start ← currentStart
  let generator ← functionHead isAsync
  let id ← openNode (.function {}) start
  let (name, body) ← inScope .function do
    let name ← if ← isAtBindingName then some <$> bindName .function else pure none
    return (name, ← functionRest rules generator)
  setKind id (.function { name, body })
  closeNode id
  return .function id

/-- Parameters and body of a method whose name is read. -/
def method (rules : Rules) (generator : Bool) : Parser Unit := do
  let id ← openNode (.function {}) (← currentStart)
  let body ← functionRest rules generator
  setKind id (.function { body })
  closeNode id

/-- The parameters of an arrow: in parentheses, or a single name. -/
def arrowParameters (rules : Rules) : Parser Unit := do
  typedAngles
  if ← isAt "(" then parameters rules
  else if ← isAtBindingName then
    let _ ← bindName .param
  else unexpected
  typeAnnotation rules

/-- Parameters and body of an arrow, in its scope. -/
def arrowRest (rules : Rules) (scope : ScopeId) (noIn : Bool) : Parser (Option FunctionBody) := do
  arrowParameters rules
  if (← currentToken).newlineBefore && (← isAt "=>") then unexpected
  expect "=>"
  if ← isAt "\x7b" then some <$> functionBody rules scope
  else
    let _ ← rules (.assignment noIn)
    pure none

def arrowFunction (rules : Rules) (isAsync noIn : Bool) : Parser Shape := do
  let id ← openNode (.function { arrow := true }) (← currentStart)
  let body ← keepingScope <| withGenerator false <| withExporting false do
    let scope ← enterScope .function
    if isAsync then bump
    arrowRest rules scope noIn
  setKind id (.function { arrow := true, body })
  closeNode id
  return .function id

/-! ### Classes -/

def isClassModifier (word : String) : Bool :=
  ["static", "get", "set", "async", "public", "private", "protected", "readonly", "abstract",
    "override", "declare", "accessor"].contains word

/-- The modifiers before a class member. Answers whether a static block follows. -/
def memberModifiers : Parser Bool :=
  loop () fun _ => do
    let t ← currentToken
    unless t.isWord && isClassModifier t.text do return .inr false
    let next ← peek
    if t.text == "static" && next.isPunctuator "\x7b" then
      bump
      return .inr true
    unless startsPropertyName next || next.isPunctuator "*" do return .inr false
    bump
    return .inl ()

/-- A block that runs when the class is created, in a scope like that of a function. -/
def staticBlock (rules : Rules) : Parser Unit :=
  inScope .function do
    within .block (← currentStart) do
      expect "\x7b"
      statements rules
      bump

/-- Whether a name and a colon follow, as in the signature of a type's unnamed properties. -/
def indexSignatureAhead : Parser Bool := do
  let (first, second) ← peekTwo
  return first.kind == .identifier && second.isPunctuator ":"

/-- A method or field whose modifiers are read. -/
def classMemberRest (rules : Rules) : Parser Unit := do
  if (← isTypedAt "[") && (← indexSignatureAhead) then
    balanced false
    if ← eat ":" then rules .type
    consumeSemicolon
  else
    let generator ← eat "*"
    propertyKey rules
    if ← isTypescript then
      unless ← eat "?" do eatOptional "!"
    if (← isAt "(") || (← isAt "<") then method rules generator
    else
      typeAnnotation rules
      if ← eat "=" then inScope .function (operand rules)
      consumeSemicolon

def classMember (rules : Rules) : Parser Unit := do
  if ← memberModifiers then staticBlock rules else classMemberRest rules

def classBody (rules : Rules) : Parser Unit := do
  expect "\x7b"
  repeatWhile do
    if ← isAt "\x7d" then return false
    if ← isAtEnd then expected "\x7d"
    if ← eat ";" then return true
    if ← isAt "@" then decorators rules else classMember rules
    return true
  bump

/-- Type parameters, base class, interfaces and body of a class. -/
def classRest (rules : Rules) : Parser Unit := do
  typedAngles
  if ← eatWord "extends" then
    let _ ← rules .callee
    typedAngles
  if ← isTypescript then
    if ← eatWord "implements" then typeList rules
  classBody rules

/-- Whether the word at the place of a class name is one. -/
def isAtClassName : Parser Bool := do
  return (← isAtBindingName) && !(← isAtWord "extends") && !(← isAtWord "implements")

/-- A class. The name of a declared one belongs to the scope around it, that of an expression to its
own scope. -/
def classNode (rules : Rules) (declared nameless : Bool) : Parser Unit := do
  within .classNode (← currentStart) do
    eatOptionalWord "abstract"
    expectWord "class"
    let named ← isAtClassName
    keepingScope do
      if declared then
        if named then
          let _ ← bindName .className
        else unless nameless do unexpected
      let _ ← enterScope .classBody
      if !declared && named then
        let _ ← bindName .className
      withExporting false (classRest rules)

end BindingRepair.Script.Grammar
