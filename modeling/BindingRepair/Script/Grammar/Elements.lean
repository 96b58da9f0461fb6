/-
# Elements

Elements with their names, attributes and children. Text between tags follows its own rules, so the
token behind a tag, a child or an expression in braces is read as a child.
-/

import BindingRepair.Script.Grammar.Rule
import BindingRepair.Script.Grammar.Types

namespace BindingRepair.Script.Grammar

open Text

def isAtGreater : Parser Bool :=
  return (← currentToken).opensWithGreater

/-- Reads the current identifier again as the name of an element or attribute. -/
def elementNamePart : Parser Token := do
  let t ← currentToken
  unless t.kind == .identifier do expected "JSX name"
  reread Token.asElementName
  return t.asElementName

/-- A part of a name, which is read. -/
def skipNamePart : Parser Unit := do
  let _ ← elementNamePart
  bump

/-- Whether a tag names a component, which is a binding, and no element of the page. -/
def namesComponent (name : String) (member : Bool) : Bool :=
  let lower := name.toList.head?.any fun c => 'a' ≤ c && c ≤ 'z'
  (member || !lower) && name != "this" && !name.toList.contains '-'

/-- The name of a tag. In an opening tag the name of a component refers to its binding. -/
def elementName (opening : Bool) : Parser Unit := do
  let first ← elementNamePart
  bump
  if ← eat ":" then skipNamePart
  else
    let member ← isAt "."
    repeatWhile do
      unless ← eat "." do return false
      skipNamePart
      return true
    if opening && namesComponent first.text member then refer first

/-- The value of an attribute: a string, an expression in braces or an element. -/
def attributeValue (rules : Rules) : Parser Unit := do
  let t ← currentToken
  if t.first.peek?.any fun c => c == '"' || c == '\'' then
    reread Token.asAttributeString
    unless t.asAttributeString.kind == .string do unexpected
    bump
  else if ← eat "\x7b" then
    operand rules
    expect "\x7d"
  else if ← isAt "<" then rules .element
  else expected "attribute value"

/-- The attributes of a tag up to its end. -/
def attributes (rules : Rules) : Parser Unit :=
  repeatWhile do
    if (← isAt "/") || (← isAtGreater) then return false
    if ← eat "\x7b" then
      expect "..."
      operand rules
      expect "\x7d"
      return true
    skipNamePart
    if ← eat ":" then skipNamePart
    if ← eat "=" then attributeValue rules
    return true

/-- A closing tag, whose first character is the current token. -/
def closingTag : Parser Unit := do
  bump
  bump
  unless ← isAtGreater do elementName false
  closingAngle

/-- An expression in braces up to the closing brace, whose opening brace is the current token. -/
def childExpression (rules : Rules) : Parser Unit := do
  bump
  unless ← isAt "\x7d" do
    eatOptional "..."
    anyExpression rules
  unless ← isAt "\x7d" do expected "\x7d"

/-- Goes on with the child of an element behind the current token. -/
def toChildBehind : Parser Unit :=
  modify fun s => { s with previousEnd := s.token.last, token := Token.readChild s.token.last }

/-- Goes on with the child of an element behind what was read last. -/
def toChild : Parser Unit :=
  modify fun s => { s with token := Token.readChild s.previousEnd }

/-- Children of an element, the first of which is the current token, and the closing tag. -/
def children (rules : Rules) : Parser Unit :=
  repeatWhile do
    let child ← currentToken
    match child.kind with
    | .endOfText => expected "closing tag"
    | .jsxText =>
      toChildBehind
      return true
    | _ =>
      if child.text == "\x7b" then
        childExpression rules
        toChildBehind
        return true
      if child.following.isPunctuator "/" then
        closingTag
        return false
      rules .element
      toChild
      return true

/-- The children behind the tag that the current token closes. -/
def childrenOfTag (rules : Rules) : Parser Unit := do
  reread Token.asGreater
  toChildBehind
  children rules

/-- An element or a fragment, whose opening angle bracket is the current token. -/
def element (rules : Rules) : Parser Unit := do
  within .element (← currentStart) do
    expect "<"
    if ← isAtGreater then childrenOfTag rules
    else
      elementName true
      typedAngles
      attributes rules
      if ← eat "/" then closingAngle
      else if ← isAtGreater then childrenOfTag rules
      else expected ">"

end BindingRepair.Script.Grammar
