/-
# Types

Types tell nothing about bindings, so they are read token by token and leave no nodes. Decorators
are read here as well.
-/

import BindingRepair.Script.Grammar.Rule

namespace BindingRepair.Script.Grammar

/-! ### Groups in brackets -/

/-- A bracket that is open within a group. -/
inductive Bracket
  | paren
  | square
  | brace
  | angle
  /-- A substitution of a template literal. -/
  | substitution
deriving DecidableEq, Repr

/-- The bracket that a punctuator opens. -/
def Bracket.opened? : String → Option Bracket
  | "(" => some .paren
  | "[" => some .square
  | "\x7b" => some .brace
  | "<" => some .angle
  | _ => none

/-- Whether a punctuator may stand directly between angle brackets of type arguments. -/
def mayStandInTypeArguments (mark : String) : Bool :=
  [",", ".", "[", "]", "(", ")", "\x7b", "\x7d", "|", "&", "?", ":", "=>", "<", "..."].contains mark

/-- The open brackets behind the current token, innermost first. Angle brackets that are open do not
keep another bracket from closing. A `>` that closes an angle bracket becomes the current token, and
so does the template piece that a brace opens. -/
def groupStep (typesOnly : Bool) (stack : List Bracket) : Parser (List Bracket) := do
  let t ← currentToken
  let unangled := stack.dropWhile (· == .angle)
  match t.kind with
  | .endOfText | .invalid => unexpected
  | .template .head => return .substitution :: stack
  | .punctuator =>
    if let some bracket := Bracket.opened? t.text then return bracket :: stack
    if t.text == ")" || t.text == "]" then
      let bracket : Bracket := if t.text == ")" then .paren else .square
      if unangled.head? == some bracket then return unangled.drop 1
      unexpected
    if t.text == "\x7d" then
      match unangled.head? with
      | some .substitution =>
        reread Token.asTemplateContinuation
        match ← currentKind with
        | .template .middle => return unangled
        | .template .tail => return unangled.drop 1
        | _ => unexpected
      | some .brace => return unangled.drop 1
      | _ => unexpected
    if t.opensWithGreater && stack.head? == some .angle then
      reread Token.asGreater
      return stack.drop 1
    if typesOnly && stack.head? == some .angle && !mayStandInTypeArguments t.text then unexpected
    return stack
  | _ => return stack

/-- A group in brackets, with all groups in it. With `typesOnly` the group must be free of operators
that no type arguments hold. -/
def balanced (typesOnly : Bool) : Parser Unit :=
  loop [] fun stack => do
    let stack ← groupStep typesOnly stack
    bump
    return if stack.isEmpty then .inr () else .inl stack

/-- Type parameters or arguments, if there are any. -/
def optionalAngles : Parser Unit := do
  if ← isAt "<" then balanced false

/-- Type parameters or arguments, if the script has types and there are any. -/
def typedAngles : Parser Unit := do
  if ← isTypescript then optionalAngles

/-- Reads a parser on trial: if it fails or `accept` denies what follows, the place is again as
before. Only the bound on the steps is not tried again. -/
def attempt (body : Parser Unit) (accept : Parser Bool) : Parser Bool := fun c s =>
  let back (after : State) : EStateM.Result Failure State Bool :=
    .ok false { after with token := s.token, previousEnd := s.previousEnd }
  let failed (e : Failure) (after : State) : EStateM.Result Failure State Bool :=
    if e.cause = .exhausted then .error e after else back after
  match body c s with
  | .error e after => failed e after
  | .ok () after =>
    match accept c after with
    | .ok true after => .ok true after
    | .ok false after => back after
    | .error e after => failed e after

/-- Type arguments of a call, if the script has types and they are there; angle brackets not followed
by arguments or a template are none. -/
def typeArguments : Parser Bool := do
  unless ← isTypedAt "<" do return false
  attempt (balanced true) do
    return (← isAt "(") || (← currentToken).isTemplateStart

/-! ### Types -/

/-- One `>`, which may be the beginning of a longer punctuator. -/
def closingAngle : Parser Unit := do
  let t ← currentToken
  if t.opensWithGreater then
    reread Token.asGreater
    bump
  else expected ">"

/-- A type behind a colon, if the script has types and there is a colon. -/
def typeAnnotation (rules : Rules) : Parser Unit := do
  if ← eatTyped ":" then rules .type

/-- Names with points between them. -/
def entityName : Parser Unit := do
  unless (← currentKind) == .identifier do expected "name"
  bump
  repeatWhile do
    unless ← eat "." do return false
    match ← currentKind with
    | .identifier | .privateName => bump
    | _ => expected "name"
    return true

/-- The type of a function, from its type parameters on. -/
def functionType (rules : Rules) : Parser Unit := do
  optionalAngles
  unless ← isAt "(" do expected "("
  balanced false
  expect "=>"
  rules .type

/-- Types with commas between them. -/
def typeList (rules : Rules) : Parser Unit :=
  repeatWhile do
    rules .type
    eat ","

/-- Operands of unions and intersections, and a condition. -/
def typeExpression (rules : Rules) : Parser Unit := do
  unless ← eat "|" do eatOptional "&"
  repeatWhile do
    rules .typeOperand
    if ← eat "|" then return true
    eat "&"
  if (← isAtWord "extends") && !(← currentToken).newlineBefore then
    bump
    rules .typeOperand
    expect "?"
    rules .type
    expect ":"
    rules .type

/-- The array brackets and look-ups behind a type. -/
def typeSuffixes : Parser Unit :=
  repeatWhile do
    unless (← isAt "[") && !(← currentToken).newlineBefore do return false
    balanced false
    return true

/-- What may follow a named type: arguments, a predicate, suffixes. -/
def namedTypeRest (rules : Rules) : Parser Unit := do
  if (← isAt "<") && !(← currentToken).newlineBefore then balanced false
  if (← isAtWord "is") && !(← currentToken).newlineBefore then
    bump
    rules .type
  else typeSuffixes

/-- A type that begins with a word. -/
def typeFromWord (rules : Rules) (t : Token) : Parser Unit := do
  let next ← peek
  let operates := !t.escaped && (next.kind == .identifier || next.kind == .punctuator) &&
    !List.contains [",", ")", "]", "\x7d", ">", ";", "=", "|", "&", "?", ":", "."] next.text
  if operates && ["keyof", "unique", "readonly"].contains t.text then
    bump
    rules .typeOperand
  else if operates && t.text == "infer" then
    bump
    bump
    if (← isAtWord "extends") && !(← peekIs "?") then
      bump
      rules .typeOperand
  else if operates && t.text == "typeof" then
    bump
    if ← isAtWord "import" then
      bump
      balanced false
    else entityName
    namedTypeRest rules
  else if t.text == "new" then
    bump
    functionType rules
  else if t.text == "abstract" && next.isKeyword "new" then
    bump
    bump
    functionType rules
  else if t.text == "asserts" && next.kind == .identifier && !next.newlineBefore then
    bump
    bump
    if ← eatWord "is" then rules .type
  else if t.text == "import" && next.isPunctuator "(" then
    bump
    balanced false
    repeatWhile do
      unless ← eat "." do return false
      bump
      return true
    namedTypeRest rules
  else
    entityName
    namedTypeRest rules

/-- A type without unions, intersections and conditions around it. -/
def typeOperand (rules : Rules) : Parser Unit := do
  let t ← currentToken
  match t.kind with
  | .identifier => typeFromWord rules t
  | .string | .number | .template .full =>
    bump
    typeSuffixes
  | .template .head =>
    balanced false
    typeSuffixes
  | .punctuator =>
    match t.text with
    | "(" =>
      balanced false
      if ← eat "=>" then rules .type else typeSuffixes
    | "<" => functionType rules
    | "\x7b" | "[" =>
      balanced false
      typeSuffixes
    | "-" =>
      bump
      unless (← currentKind) == .number do unexpected
      bump
      typeSuffixes
    | _ => expected "type"
  | _ => expected "type"

/-! ### Decorators and modifiers -/

/-- Decorators, each an operand behind an at sign. -/
def decorators (rules : Rules) : Parser Unit :=
  repeatWhile do
    unless ← eat "@" do return false
    let _ ← rules .callee
    return true

/-- The words before a constructor parameter that make it a property. -/
def parameterModifiers : Parser Unit :=
  repeatWhile do
    let t ← currentToken
    unless t.isWord &&
        ["public", "private", "protected", "readonly", "override"].contains t.text do
      return false
    let next ← peek
    unless next.kind == .identifier || next.isPunctuator "\x7b" || next.isPunctuator "[" do
      return false
    bump
    return true

end BindingRepair.Script.Grammar
