/-
# Looking ahead

Decisions that depend on tokens behind the current one. Nothing here changes the state of a parser.
The searches that may run far ahead take a bound on their steps, which the length of the text meets; a
search that has used it up, or closes what is not open, gives no answer.
-/

import BindingRepair.Script.Grammar.State

namespace BindingRepair.Script.Grammar

open Text

/-- Whether a property key begins with the token. -/
def startsPropertyName (t : Token) : Bool :=
  match t.kind with
  | .identifier | .string | .number | .privateName => true
  | .punctuator => t.text == "["
  | _ => false

/-- Whether an expression may begin with the token. -/
def startsExpression (t : Token) : Bool :=
  match t.kind with
  | .endOfText | .invalid | .jsxText => false
  | .punctuator => !List.contains [")", "]", "\x7d", ",", ";", ":", "=", "=>", "?", "."] t.text
  | _ => true

/-- Whether an operand ends with the token, so that a slash behind it divides. -/
def endsOperand (t : Token) : Bool :=
  match t.kind with
  | .identifier =>
    t.escaped || !isReservedWord t.text ||
      ["this", "super", "null", "true", "false"].contains t.text
  | .number | .string | .regex | .privateName | .template .full | .template .tail => true
  | .punctuator => [")", "]", "\x7d"].contains t.text
  | _ => false

/-- How many closing angle brackets a punctuator made of nothing else holds. -/
def closingAngles? (mark : String) : Option Nat :=
  let cs := mark.toList
  if !cs.isEmpty && cs.all (· == '>') then some cs.length else none

/-- Whether an arrow follows the type at a place, which stands behind a parameter list and a colon.
`depth` counts the brackets that are open. -/
def arrowFollowsType (depth : Nat) (place : Cursor) : (steps : Nat) → Option Bool
  | 0 => none
  | steps + 1 =>
    let t := Token.read place
    let broken := depth == 0 && t.newlineBefore && !t.isPunctuator "=>" &&
      !(t.kind == .punctuator && ["|", "&", ".", "<", "["].contains t.text)
    if t.kind == .endOfText || t.kind == .invalid || broken then some false
    else if t.kind != .punctuator then arrowFollowsType depth t.last steps
    else if ["(", "[", "\x7b", "<"].contains t.text then arrowFollowsType (depth + 1) t.last steps
    else if [")", "]", "\x7d"].contains t.text then
      if depth == 0 then some false else arrowFollowsType (depth - 1) t.last steps
    else
      match closingAngles? t.text with
      | some n => arrowFollowsType (depth - n) t.last steps
      | none =>
        if depth == 0 && t.text == "=>" then some true
        else if depth == 0 && [";", ",", "="].contains t.text then some false
        else arrowFollowsType depth t.last steps

/-- Whether an arrow stands behind the closing parenthesis of a parameter list, perhaps after the
type of the result. -/
def arrowFollowsParameters (c : Context) (place : Cursor) : Option Bool :=
  let t := Token.read place
  if t.isPunctuator "=>" then some !t.newlineBefore
  else if c.dialect.typescript && t.isPunctuator ":" then arrowFollowsType 0 t.last c.bound
  else some false

/-- Whether the parentheses that are open at a place enclose the parameters of an arrow. `depth`
counts the brackets that are open, at least one, `templates` holds the depths of the open template
literals, and `operand` tells whether an operand ends at the place. -/
def arrowFollowsParens (c : Context) (depth : Nat) (templates : List Nat) (operand : Bool)
    (place : Cursor) : (steps : Nat) → Option Bool
  | 0 => none
  | steps + 1 =>
    let t := Token.read place
    match t.kind with
    | .endOfText | .invalid => some false
    | .template .head =>
      arrowFollowsParens c depth (depth :: templates) (endsOperand t) t.last steps
    | .punctuator =>
      if ["(", "[", "\x7b"].contains t.text then
        arrowFollowsParens c (depth + 1) templates (endsOperand t) t.last steps
      else if [")", "]"].contains t.text then
        if depth == 1 then
          if t.text == ")" then arrowFollowsParameters c t.last else some false
        else
          match depth with
          | 0 => none
          | outer + 1 => arrowFollowsParens c outer templates (endsOperand t) t.last steps
      else if t.text == "\x7d" then
        if templates.head? == some depth then
          let piece := t.asTemplateContinuation
          match piece.kind with
          | .template .tail =>
            arrowFollowsParens c depth (templates.drop 1) (endsOperand piece) piece.last steps
          | .template .middle =>
            arrowFollowsParens c depth templates (endsOperand piece) piece.last steps
          | _ => some false
        else if depth == 1 then some false
        else
          match depth with
          | 0 => none
          | outer + 1 => arrowFollowsParens c outer templates (endsOperand t) t.last steps
      else if ["/", "/="].contains t.text && !operand then
        let literal := t.asRegex
        if literal.kind == .regex then
          arrowFollowsParens c depth templates (endsOperand literal) literal.last steps
        else some false
      else arrowFollowsParens c depth templates (endsOperand t) t.last steps
    | _ => arrowFollowsParens c depth templates (endsOperand t) t.last steps

/-- Whether the parenthesis that ends at a place opens the parameters of an arrow. -/
def opensArrowParameters (c : Context) (place : Cursor) : Option Bool :=
  arrowFollowsParens c 1 [] false place c.bound

/-- The place behind the angle bracket that closes the type parameters open at a place; the search
finds none where what stands between is no list of type parameters. -/
def typeParametersEnd? (depth : Nat) (place : Cursor) : (steps : Nat) → Option (Option Cursor)
  | 0 => none
  | steps + 1 =>
    let t := Token.read place
    match t.kind with
    | .endOfText | .invalid => some none
    | .punctuator =>
      if t.text == "<" then typeParametersEnd? (depth + 1) t.last steps
      else
        match closingAngles? t.text with
        | some n =>
          if depth ≤ n then some (some t.last) else typeParametersEnd? (depth - n) t.last steps
        | none =>
          if depth == 1 && [";", "\x7b", "\x7d", ")"].contains t.text then some none
          else typeParametersEnd? depth t.last steps
    | _ => typeParametersEnd? depth t.last steps

/-- Whether the angle bracket that ends at a place opens the type parameters of an arrow. Where
elements are allowed, a comma or a constraint has to follow the first parameter. -/
def opensGenericArrow (c : Context) (place : Cursor) : Option Bool :=
  let first := Token.read place
  let second := first.following
  let mayBeElement := c.dialect.jsx &&
    !(first.kind == .identifier && (second.isPunctuator "," || second.isKeyword "extends"))
  if mayBeElement then some false
  else
    match typeParametersEnd? 1 place c.bound with
    | none => none
    | some none => some false
    | some (some closing) =>
      let paren := Token.read closing
      if paren.isPunctuator "(" then opensArrowParameters c paren.last else some false

/-- The answer of a search. Without one the bound is used up. -/
def answer {α : Type} : Option α → Parser α
  | some a => pure a
  | none => exhausted

/-- Whether `let` declares variables here and is no name. -/
def letDeclares : Parser Bool := do
  let next ← peek
  return match next.kind with
    | .identifier => !List.contains ["in", "instanceof", "of"] next.text
    | .punctuator => ["[", "\x7b"].contains next.text
    | _ => false

/-- Whether `async` is followed by a function on the same line. -/
def asyncFunctionAhead : Parser Bool := do
  let next ← peek
  return !next.newlineBefore && next.isKeyword "function"

/-- Whether `await` stands before an operand and is no name. -/
def awaitOperates : Parser Bool := do
  let next ← peek
  return match next.kind with
    | .endOfText => false
    | .punctuator =>
      !List.contains [")", "]", "\x7d", ",", ";", ":", "=", "=>", ".", "?.", "?"] next.text
    | _ => true

end BindingRepair.Script.Grammar
