/-
# Type and ambient declarations

Declarations that only scripts with types have. They contribute the names that they bind; the rest is
read token by token.
-/

import BindingRepair.Script.Grammar.Statements

namespace BindingRepair.Script.Grammar

/-- A name that is declared without a value. -/
def ambientName : Parser Unit := do
  unless ← isAtBindingName do expected "name"
  let _ ← bindName .ambient

/-- An enumeration, with or without `const`. -/
def enumRest : Parser Unit := do
  eatOptionalWord "const"
  expectWord "enum"
  ambientName
  balanced false

def enumDeclaration : Parser Unit := do
  within .typeDeclaration (← currentStart) enumRest

/-- An interface, at its keyword. -/
def interfaceDeclaration (rules : Rules) : Parser Unit := do
  within .typeDeclaration (← currentStart) do
    bump
    bump
    optionalAngles
    if ← eatWord "extends" then typeList rules
    unless ← isAt "\x7b" do expected "\x7b"
    balanced false

/-- A type alias, at its keyword. -/
def aliasDeclaration (rules : Rules) : Parser Unit := do
  within .typeDeclaration (← currentStart) do
    bump
    bump
    optionalAngles
    expect "="
    rules .type
    consumeSemicolon

/-- An interface or a type alias. Answers no, and reads nothing, where the word is a name. -/
def interfaceOrAlias (rules : Rules) : Parser Bool := do
  let t ← currentToken
  let (next, after) ← peekTwo
  unless next.kind == .identifier && !next.newlineBefore do return false
  if t.text == "interface" then
    interfaceDeclaration rules
    return true
  if t.text == "type" && (after.isPunctuator "=" || after.isPunctuator "<") then
    aliasDeclaration rules
    return true
  return false

/-- Name and body of a namespace, whose keyword is read. -/
def namespaceRest (rules : Rules) : Parser Unit := do
  if (← currentKind) == .string then bump
  else
    ambientName
    repeatWhile do
      unless ← eat "." do return false
      bump
      return true
  if ← isAt "\x7b" then block rules else consumeSemicolon

/-- Ambient variables, at their keyword. -/
def ambientVariables (rules : Rules) : Parser Unit := do
  bump
  repeatWhile do
    ambientName
    if ← eat ":" then rules .type
    defaultValue rules
    eat ","
  consumeSemicolon

/-- An ambient function, at its keyword. -/
def ambientFunction (rules : Rules) : Parser Unit := do
  eatOptionalWord "async"
  expectWord "function"
  eatOptional "*"
  ambientName
  optionalAngles
  unless ← isAt "(" do expected "("
  balanced false
  if ← eat ":" then rules .type
  consumeSemicolon

/-- An ambient class, at its keyword. -/
def ambientClass : Parser Unit := do
  eatOptionalWord "abstract"
  expectWord "class"
  ambientName
  repeatWhile do
    if ← isAt "\x7b" then return false
    match ← currentKind with
    | .endOfText | .invalid => expected "\x7b"
    | _ => if ← isAt "<" then balanced false else bump
    return true
  balanced false

/-- What is declared behind `declare`. -/
def ambientDeclaration (rules : Rules) : Parser Unit := do
  let t ← currentToken
  if ["var", "let", "const"].contains t.text && !(← peekIsWord "enum") then ambientVariables rules
  else
    match t.text with
    | "const" | "enum" => enumRest
    | "function" | "async" => ambientFunction rules
    | "abstract" | "class" => ambientClass
    | "namespace" | "module" =>
      bump
      namespaceRest rules
    | "global" =>
      bump
      block rules
    | "interface" | "type" => unless ← interfaceOrAlias rules do unexpected
    | _ => unexpected

/-- Opens a node of a type declaration at its first word, which is read, around what follows. -/
def behindWord (body : Parser Unit) : Parser Bool := do
  within .typeDeclaration (← currentStart) do
    bump
    body
  return true

/-- A declaration that begins with a word that may also be a name. Answers no, and reads nothing,
where the word is a name. -/
def typeDeclaration (rules : Rules) : Parser Bool := do
  let t ← currentToken
  let next ← peek
  let sameLine := !next.newlineBefore
  let nameFollows := next.kind == .identifier && sameLine
  match t.text with
  | "interface" | "type" => interfaceOrAlias rules
  | "enum" =>
    unless nameFollows do return false
    enumDeclaration
    return true
  | "abstract" =>
    unless next.isKeyword "class" && sameLine do return false
    classNode rules true false
    return true
  | "namespace" => if nameFollows then behindWord (namespaceRest rules) else return false
  | "module" =>
    if nameFollows || next.kind == .string then behindWord (namespaceRest rules) else return false
  | "global" => if next.isPunctuator "\x7b" then behindWord (block rules) else return false
  | "declare" => if nameFollows then behindWord (ambientDeclaration rules) else return false
  | _ => return false

end BindingRepair.Script.Grammar
