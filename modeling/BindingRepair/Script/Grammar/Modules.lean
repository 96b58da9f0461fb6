/-
# Imports and exports

Import declarations are nodes that repairs add names to; export declarations mark the names that they
declare, and lists of exported names refer to them.
-/

import BindingRepair.Script.Grammar.Declarations

namespace BindingRepair.Script.Grammar

open Text

/-- The characters of a string token without its quotes. -/
def stringValue (t : Token) : String :=
  String.ofList ((t.text.toList.drop 1).dropLast)

/-- Attributes of an import, if there are any. -/
def importAttributes : Parser Unit := do
  if ((← isAtWord "with") || (← isAtWord "assert")) && !(← currentToken).newlineBefore then
    bump
    balanced false

/-- The module behind `from`. -/
def fromModule : Parser String := do
  expectWord "from"
  let t ← currentToken
  unless t.kind == .string do expected "module specifier"
  bump
  return stringValue t

/-! ### Imports -/

/-- The word `type` before a name of an import or export list, which is read if it is no name. -/
def eatTypeModifier (stringToo : Bool) : Parser Bool := do
  unless (← isTypescript) && (← isAtWord "type") do return false
  let next ← peek
  unless (next.kind == .identifier && next.text != "as") || (stringToo && next.kind == .string) do
    return false
  bump
  return true

/-- The name under which a specifier imports the export that a token names, and whether that is the
name of the export itself. -/
def specifierLocal (imported : Token) : Parser (Token × Bool) := do
  if ← eatWord "as" then
    unless ← isAtBindingName do unexpected
    let t ← currentToken
    bump
    return (t, false)
  unless imported.kind == .identifier do expected "as"
  return (imported, true)

/-- Declares what a specifier imports. -/
def importedAs (start : Nat) (typeOnly : Bool) (t : Token) (imported : String) :
    Parser ImportSpecifier := do
  bump
  let (localToken, unaliased) ← specifierLocal t
  let localNode ← bind localToken { kind := .imported, unaliased }
  return { imported, localNode, typeOnly, span := ⟨start, ← previousStop⟩ }

def importSpecifier : Parser ImportSpecifier := do
  let start ← currentStart
  let typeOnly ← eatTypeModifier true
  let t ← currentToken
  let imported ←
    match t.kind with
    | .identifier => pure (identifierName t)
    | .string => pure (stringValue t)
    | _ => unexpected
  importedAs start typeOnly t imported

def namedImports : Parser NamedImports := do
  let opening ← currentStart
  expect "\x7b"
  let specifiers ← loop #[] fun specifiers => do
    if ← isAt "\x7d" then return .inr specifiers
    let specifier ← importSpecifier
    unless ← isAt "\x7d" do expect ","
    return .inl (specifiers.push specifier)
  let closing ← currentStart
  bump
  return { opening, closing, specifiers := specifiers.toList }

/-- The names of an import behind its default name. -/
def importClause (node : ImportNode) : Parser ImportNode := do
  if ← eat "*" then
    expectWord "as"
    unless ← isAtBindingName do unexpected
    return { node with namespaceName := some (← bindName .imported) }
  if ← isAt "\x7b" then return { node with named := some (← namedImports) }
  unexpected

/-- The word `type` behind `import`, which is read if it is no name. -/
def eatImportType : Parser Bool := do
  unless (← isTypescript) && (← isAtWord "type") do return false
  let next ← peek
  unless (next.kind == .identifier && next.text != "from") || next.isPunctuator "\x7b" ||
      next.isPunctuator "*" do
    return false
  bump
  return true

/-- The rest of an import that gives a name to a module or to a member of a namespace. -/
def importAlias : Parser Unit := do
  let _ ← bindName .imported
  bump
  if ← eatWord "require" then balanced false else entityName
  consumeSemicolon

/-- The names of an import declaration that has any. -/
def importNames (typeOnly : Bool) : Parser ImportNode := do
  let empty : ImportNode := { source := "", typeOnly }
  if ← isAtBindingName then
    let named := { empty with defaultName := some (← bindName .imported) }
    if ← eat "," then importClause named else pure named
  else importClause empty

/-- The names and module of an import declaration. -/
def importParts (typeOnly : Bool) : Parser ImportNode := do
  let t ← currentToken
  if t.kind == .string then
    bump
    return { source := stringValue t, typeOnly }
  let names ← importNames typeOnly
  return { names with source := ← fromModule }

def importDeclaration : Parser Unit := do
  let id ← openNode .statement (← currentStart)
  bump
  let typeOnly ← eatImportType
  if (← isAtBindingName) && (← isTypescript) && (← peekIs "=") then importAlias
  else
    let node ← importParts typeOnly
    importAttributes
    consumeSemicolon
    setKind id (.importDeclaration node)
  closeNode id

/-! ### Exports -/

def exportDefault (rules : Rules) : Parser Unit :=
  withExporting true do
    if ← isAtWord "function" then functionDeclaration rules false true
    else if (← isAtWord "async") && (← asyncFunctionAhead) then functionDeclaration rules true true
    else if (← isAtWord "class") || ((← isAtWord "abstract") && (← peekIsWord "class")) then
      classNode rules true true
    else
      let isInterface ←
        if (← isTypescript) && (← isAtWord "interface") then interfaceOrAlias rules
        else pure false
      unless isInterface do
        withExporting false do
          operand rules
          consumeSemicolon

/-- The module that exports are passed on from. -/
def exportFrom : Parser Unit := do
  let _ ← fromModule
  importAttributes
  consumeSemicolon

/-- Whether the current token can name an export. -/
def isAtExportName : Parser Bool := do
  match ← currentKind with
  | .identifier | .string => return true
  | _ => return false

/-- A name in a list of exports. Gives the token that names the exported binding. -/
def exportSpecifier : Parser Token := do
  let _ ← eatTypeModifier false
  let t ← currentToken
  unless ← isAtExportName do unexpected
  bump
  if ← eatWord "as" then
    unless ← isAtExportName do unexpected
    bump
  return t

/-- A list of exports. Unless it is about types or passes on the exports of a module, its names refer
to bindings. -/
def exportList (typeOnly : Bool) : Parser Unit := do
  expect "\x7b"
  let names ← loop #[] fun names => do
    if ← isAt "\x7d" then return .inr names
    let t ← exportSpecifier
    unless ← isAt "\x7d" do expect ","
    return .inl (if t.kind == .identifier then names.push t else names)
  bump
  if ← isAtWord "from" then exportFrom
  else
    unless typeOnly do names.toList.forM refer
    consumeSemicolon

/-- An exported import that gives a name to a member of a namespace. -/
def exportAlias : Parser Unit := do
  bump
  unless ← isAtBindingName do unexpected
  let _ ← bindCurrent { kind := .imported, exported := true }
  expect "="
  entityName
  consumeSemicolon

/-- What only scripts with types export: a single value, a global name, an alias. Answers no where
another export follows. -/
def typedExport (rules : Rules) : Parser Bool := do
  unless ← isTypescript do return false
  if ← eat "=" then
    operand rules
    consumeSemicolon
    return true
  if ← eatWord "as" then
    expectWord "namespace"
    bump
    consumeSemicolon
    return true
  if ← isAtWord "import" then
    exportAlias
    return true
  return false

def exportDeclaration (rules : Rules) : Parser Unit := do
  let id ← openNode (.exportDeclaration false) (← currentStart)
  bump
  if ← eatWord "default" then
    setKind id (.exportDeclaration true)
    exportDefault rules
  else if ← eat "*" then
    if ← eatWord "as" then bump
    exportFrom
  else if (← isAt "\x7b") || ((← isAtWord "type") && (← peekIs "\x7b")) then
    exportList (← eatWord "type")
  else unless ← typedExport rules do
    withExporting true (rules .bareItem)
  closeNode id

end BindingRepair.Script.Grammar
