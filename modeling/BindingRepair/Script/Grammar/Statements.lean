/-
# Statements

Statements and variable declarations. The declarations of modules and types stand in files of their
own.
-/

import BindingRepair.Script.Grammar.Expressions

namespace BindingRepair.Script.Grammar

/-! ### Variables -/

def varKinds (word : String) : VarKind × BindingKind :=
  match word with
  | "var" => (.var, .var)
  | "let" => (.let, .let)
  | _ => (.const, .const)

/-- A declared name, or a pattern, which has none. -/
def declaredName (rules : Rules) (kind : BindingKind) : Parser (Option NodeId) := do
  if ← isAtBindingName then some <$> bindName kind
  else
    rules (.target kind)
    pure none

/-- The type behind a declared name. -/
def declaredType (rules : Rules) : Parser Unit := do
  if ← isTypescript then
    eatOptional "!"
    if ← eat ":" then rules .type

/-- An initial value, if there is one. Gives the function that it is. -/
def initialFunction (rules : Rules) (noIn : Bool) : Parser (Option NodeId) := do
  if ← eat "=" then
    let value ← withExporting false (rules (.assignment noIn))
    pure value.function?
  else pure none

/-- A declared name or pattern, with its type and initial value. -/
def declarator (rules : Rules) (kind : BindingKind) (noIn : Bool) : Parser Unit := do
  let id ← openNode (.declarator {}) (← currentStart)
  let name ← declaredName rules kind
  declaredType rules
  let function ← initialFunction rules noIn
  setKind id (.declarator { name, function })
  closeNode id

/-- A variable declaration without its end. The node stays open. -/
def varDeclaration (rules : Rules) (noIn : Bool) : Parser NodeId := do
  let t ← currentToken
  let (kind, bindingKind) := varKinds t.text
  let id ← openNode (.varDeclaration kind) t.start
  bump
  repeatWhile do
    declarator rules bindingKind noIn
    eat ","
  return id

def varStatement (rules : Rules) : Parser Unit := do
  let id ← varDeclaration rules false
  consumeSemicolon
  closeNode id

/-! ### Control -/

def parenthesized (rules : Rules) : Parser Unit := do
  expect "("
  anyExpression rules
  expect ")"

/-- The part of a loop head before the first semicolon, `in` or `of`. -/
def forInitializer (rules : Rules) : Parser Unit := do
  if ← isAt ";" then return
  let isVar ← isAtWord "var"
  let declares ←
    if isVar then pure true
    else if ← isAtWord "const" then pure true
    else if ← isAtWord "let" then letDeclares
    else pure false
  if declares then
    unless isVar do
      let _ ← enterScope .block
    closeNode (← varDeclaration rules true)
  else
    let _ ← expression rules true

/-- The part of a loop head behind the initializer. -/
def forRest (rules : Rules) : Parser Unit := do
  if ← eatWord "of" then operand rules
  else if ← eatWord "in" then anyExpression rules
  else
    expect ";"
    unless ← isAt ";" do anyExpression rules
    expect ";"
    unless ← isAt ")" do anyExpression rules

def forStatement (rules : Rules) : Parser Unit := do
  bump
  eatOptionalWord "await"
  expect "("
  keepingScope do
    forInitializer rules
    forRest rules
    expect ")"
    rules .item

/-- The binding of a caught value, if there is one. -/
def catchParameter (rules : Rules) : Parser Unit := do
  if ← eat "(" then
    rules (.target .catchParam)
    typeAnnotation rules
    expect ")"

def tryStatement (rules : Rules) : Parser Unit := do
  bump
  block rules
  if ← eatWord "catch" then
    inScope .catchClause do
      catchParameter rules
      block rules
  if ← eatWord "finally" then block rules

/-- A case label, a default label or a statement of a switch. -/
def switchItem (rules : Rules) : Parser Unit := do
  if ← eatWord "case" then
    anyExpression rules
    expect ":"
  else if ← eatWord "default" then expect ":"
  else if ← isAtEnd then expected "\x7d"
  else rules .item

def switchStatement (rules : Rules) : Parser Unit := do
  bump
  parenthesized rules
  expect "\x7b"
  inScope .block do
    repeatWhile do
      if ← isAt "\x7d" then return false
      switchItem rules
      return true
    bump

/-! ### Statements -/

def ifStatement (rules : Rules) : Parser Unit := do
  bump
  parenthesized rules
  rules .item
  if ← eatWord "else" then rules .item

def whileStatement (rules : Rules) : Parser Unit := do
  bump
  parenthesized rules
  rules .item

def doStatement (rules : Rules) : Parser Unit := do
  bump
  rules .item
  expectWord "while"
  parenthesized rules
  eatOptional ";"

def returnStatement (rules : Rules) : Parser Unit := do
  bump
  let t ← currentToken
  unless t.isPunctuator ";" || t.isPunctuator "\x7d" || t.kind == .endOfText || t.newlineBefore do
    anyExpression rules
  consumeSemicolon

def jumpStatement : Parser Unit := do
  bump
  let t ← currentToken
  if t.kind == .identifier && !t.newlineBefore then bump
  consumeSemicolon

/-- A statement that begins with no keyword: nothing, a labelled statement or an expression. -/
def plainStatement (rules : Rules) : Parser Unit := do
  if ← isAt ";" then bump
  else if (← isAtBindingName) && (← peekIs ":") then
    bump
    bump
    rules .item
  else
    anyExpression rules
    consumeSemicolon

/-- The statement that a word begins. -/
def statementOf (rules : Rules) (word : String) : Parser Unit :=
  match word with
  | "if" => ifStatement rules
  | "for" => forStatement rules
  | "while" | "with" => whileStatement rules
  | "do" => doStatement rules
  | "return" | "throw" => returnStatement rules
  | "break" | "continue" => jumpStatement
  | "try" => tryStatement rules
  | "switch" => switchStatement rules
  | "debugger" => do
    bump
    consumeSemicolon
  | _ => plainStatement rules

def statement (rules : Rules) : Parser Unit := do
  if ← isAt "\x7b" then block rules
  else
    let t ← currentToken
    within .statement t.start do
      if t.isWord then statementOf rules t.text else plainStatement rules

end BindingRepair.Script.Grammar
