/-
# Parser state

A parser reads tokens from one place on and builds the nodes and scopes of a tree. It sees the text
only through the current token, and it changes the tree only through the few operations of this
file. A failing parser keeps the state it has reached; only the reading of type arguments on trial
goes on after a failure.
-/

import BindingRepair.Script.Lexer
import BindingRepair.Script.Tree
import BindingRepair.Text.Digits

namespace BindingRepair.Script.Grammar

open Text

/-- What stands at the place of a failure. -/
inductive Found
  | endOfText
  | invalid
  | token (text : String)
deriving DecidableEq, Repr

inductive Cause
  | unexpected (found : Found)
  | expected (what : String) (found : Found)
  | nestedTooDeeply
  /-- The bound on the steps of the parser is used up. -/
  | exhausted
deriving DecidableEq, Repr

/-- Why and at which offset parsing fails. -/
structure Failure where
  offset : Nat
  cause : Cause
deriving DecidableEq, Repr

structure State where
  /-- The token that is read next. -/
  token : Token
  /-- The place behind the token that was read last. -/
  previousEnd : Cursor
  nodes : Array Node
  scopes : ScopeForest
  references : Array NodeId
  /-- The nodes that are not complete, innermost first. -/
  opened : List NodeId
  /-- The scope that names are declared in. -/
  scope : ScopeId
  /-- How deep the constructs around the current token nest. -/
  depth : Nat
  inGenerator : Bool
  /-- The names declared now belong to an export. -/
  exporting : Bool
  explicitSemicolons : Nat
  insertedSemicolons : Nat
  singleQuotes : Nat
  doubleQuotes : Nat

/-- What stays the same while a text is parsed. -/
structure Context where
  dialect : Dialect
  /-- No loop and no chain of calls takes more steps. -/
  bound : Nat

abbrev Parser := ReaderT Context (EStateM Failure State)

/-- How deep constructs may nest. -/
def maxDepth : Nat := 256

/-! ### Failures -/

def failAt {α : Type} (offset : Nat) (cause : Cause) : Parser α :=
  throw ⟨offset, cause⟩

/-- What a message tells of a token: at most its first 24 characters. -/
def describe (t : Token) : Found :=
  match t.kind with
  | .endOfText => .endOfText
  | .invalid => .invalid
  | _ => .token (String.ofList (t.text.toList.take 24))

def unexpected {α : Type} : Parser α := do
  let t := (← get).token
  failAt t.start (.unexpected (describe t))

def expected {α : Type} (what : String) : Parser α := do
  let t := (← get).token
  failAt t.start (.expected what (describe t))

def exhausted {α : Type} : Parser α := do
  failAt (← get).token.start .exhausted

/-! ### Loops and nesting -/

/-- Repeats a step, at most `n` times, until it answers with a result. -/
def loopUpTo {σ α : Type} (step : σ → Parser (Sum σ α)) : Nat → σ → Parser α
  | 0, _ => exhausted
  | n + 1, s => do
    match ← step s with
    | .inl next => loopUpTo step n next
    | .inr result => pure result

/-- Repeats a step until it answers with a result. -/
def loop {σ α : Type} (init : σ) (step : σ → Parser (Sum σ α)) : Parser α := do
  loopUpTo step ((← read).bound) init

/-- Repeats a step as long as it answers yes. -/
def repeatWhile (step : Parser Bool) : Parser Unit :=
  loop () fun _ => do
    if ← step then pure (.inl ()) else pure (.inr ())

/-- Counts one level of nesting around a parser. -/
def nested {α : Type} (body : Parser α) : Parser α := do
  modify fun s => { s with depth := s.depth + 1 }
  let s ← get
  if s.depth > maxDepth then failAt s.token.start .nestedTooDeeply
  let result ← body
  modify fun s => { s with depth := s.depth - 1 }
  return result

/-! ### Tokens -/

def currentToken : Parser Token :=
  return (← get).token

def currentKind : Parser TokenKind :=
  return (← currentToken).kind

/-- Where the current token begins. -/
def currentStart : Parser Nat :=
  return (← currentToken).start

/-- Where the token that was read last ends. -/
def previousStop : Parser Nat :=
  return (← get).previousEnd.offset

def isTypescript : Parser Bool :=
  return (← read).dialect.typescript

def allowsElements : Parser Bool :=
  return (← read).dialect.jsx

def isAt (mark : String) : Parser Bool :=
  return (← currentToken).isPunctuator mark

/-- Whether the script has types and the current token is the given punctuator. -/
def isTypedAt (mark : String) : Parser Bool := do
  return (← isTypescript) && (← isAt mark)

def isAtWord (word : String) : Parser Bool :=
  return (← currentToken).isKeyword word

def isAtEnd : Parser Bool :=
  return (← currentKind) == .endOfText

/-- Whether a token can name a binding. -/
def namesBinding (t : Token) : Bool :=
  t.kind == .identifier && (t.escaped || !isReservedWord t.text)

def isAtBindingName : Parser Bool :=
  return namesBinding (← currentToken)

/-- Reads the current token again in another context. -/
def reread (again : Token → Token) : Parser Unit :=
  modify fun s => { s with token := again s.token }

/-- Counts the quotes of a string. -/
def State.countQuotes (s : State) : State :=
  if s.token.kind == .string then
    match s.token.text.toList.head? with
    | some '\'' => { s with singleQuotes := s.singleQuotes + 1 }
    | some '"' => { s with doubleQuotes := s.doubleQuotes + 1 }
    | _ => s
  else s

/-- Reads the current token. -/
def bump : Parser Unit :=
  modify fun s =>
    let s := s.countQuotes
    { s with previousEnd := s.token.last, token := s.token.following }

/-- Reads the current token if it is the given punctuator. -/
def eat (mark : String) : Parser Bool := do
  if ← isAt mark then bump; return true
  else return false

def eatWord (word : String) : Parser Bool := do
  if ← isAtWord word then bump; return true
  else return false

/-- Reads a punctuator if the script has types. -/
def eatTyped (mark : String) : Parser Bool := do
  if ← isTypescript then eat mark else return false

/-- Reads a punctuator that may or may not stand here. -/
def eatOptional (mark : String) : Parser Unit := do
  let _ ← eat mark

def eatOptionalWord (word : String) : Parser Unit := do
  let _ ← eatWord word

def expect (mark : String) : Parser Unit := do
  unless ← eat mark do expected mark

def expectWord (word : String) : Parser Unit := do
  unless ← eatWord word do expected word

/-- The token behind the current one. -/
def peek : Parser Token :=
  return (← currentToken).following

/-- The two tokens behind the current one. -/
def peekTwo : Parser (Token × Token) := do
  let next ← peek
  return (next, next.following)

def peekIs (mark : String) : Parser Bool :=
  return (← peek).isPunctuator mark

def peekIsWord (word : String) : Parser Bool :=
  return (← peek).isKeyword word

/-- Reads the end of a statement: a semicolon, or nothing where none is needed. -/
def consumeSemicolon : Parser Unit := do
  if ← eat ";" then
    modify fun s => { s with explicitSemicolons := s.explicitSemicolons + 1 }
  else if (← isAt "\x7d") || (← isAtEnd) || (← currentToken).newlineBefore then
    modify fun s => { s with insertedSemicolons := s.insertedSemicolons + 1 }
  else expected ";"

/-! ### Nodes and scopes -/

/-- The state with one more node, the last child of the innermost open one. -/
def State.addNode (s : State) (kind : NodeKind) (span : Span) (scope : ScopeId) : State :=
  { s with nodes := appendNode s.nodes kind span scope s.opened.head? }

/-- The state with one more node, which takes in the nodes added until it is closed. -/
def State.openNode (s : State) (kind : NodeKind) (start : Nat) : State :=
  { s.addNode kind (Span.emptyAt start) s.scope with opened := ⟨s.nodes.size⟩ :: s.opened }

/-- The state with the node `id` complete, and with it the nodes opened after it. The node ends at
`stop`. -/
def State.closeNodeAt (s : State) (id : NodeId) (stop : Nat) : State :=
  { s with
    nodes := s.nodes.modify id.index fun n =>
      { n with span := { n.span with stop := max stop n.span.start } }
    opened := (s.opened.dropWhile (· ≠ id)).drop 1 }

/-- The state with the node `id` complete, which ends where the token before ends. -/
def State.closeNode (s : State) (id : NodeId) : State :=
  s.closeNodeAt id s.previousEnd.offset

/-- The state with another kind for a node. -/
def State.setKind (s : State) (id : NodeId) (kind : NodeKind) : State :=
  { s with nodes := s.nodes.modify id.index fun n => { n with kind } }

/-- Adds a node that takes in the nodes added until it is closed. -/
def openNode (kind : NodeKind) (start : Nat) : Parser NodeId :=
  modifyGet fun s => (⟨s.nodes.size⟩, s.openNode kind start)

def closeNodeAt (id : NodeId) (stop : Nat) : Parser Unit :=
  modify (·.closeNodeAt id stop)

def closeNode (id : NodeId) : Parser Unit :=
  modify (·.closeNode id)

def setKind (id : NodeId) (kind : NodeKind) : Parser Unit :=
  modify (·.setKind id kind)

/-- Opens a node around a parser. -/
def within {α : Type} (kind : NodeKind) (start : Nat) (body : Parser α) : Parser α := do
  let id ← openNode kind start
  let result ← body
  closeNode id
  return result

/-- The state in a new scope inside the current one. -/
def State.enterScope (s : State) (kind : ScopeKind) : State :=
  let (id, scopes) := s.scopes.add kind (some s.scope)
  { s with scopes, scope := id }

/-- Begins a scope inside the current one. -/
def enterScope (kind : ScopeKind) : Parser ScopeId :=
  modifyGet fun s => (⟨s.scopes.size⟩, s.enterScope kind)

/-- Returns to the current scope after a parser. -/
def keepingScope {α : Type} (body : Parser α) : Parser α := do
  let saved := (← get).scope
  let result ← body
  modify fun s => { s with scope := saved }
  return result

/-- Runs a parser in a scope of its own. -/
def inScope {α : Type} (kind : ScopeKind) (body : Parser α) : Parser α :=
  keepingScope do
    let _ ← enterScope kind
    body

/-- Runs a parser with or without export of what it declares. -/
def withExporting {α : Type} (exporting : Bool) (body : Parser α) : Parser α := do
  let saved := (← get).exporting
  modify fun s => { s with exporting }
  let result ← body
  modify fun s => { s with exporting := saved }
  return result

/-- Runs a parser inside or outside a generator. -/
def withGenerator {α : Type} (inGenerator : Bool) (body : Parser α) : Parser α := do
  let saved := (← get).inGenerator
  modify fun s => { s with inGenerator }
  let result ← body
  modify fun s => { s with inGenerator := saved }
  return result

/-! ### Identifiers -/

/-- Decodes the escapes of an identifier; an escape of no character stays as it is. `digits` are
those of the escape in braces that is being read, last first. -/
def decodeEscapes : Option (List Char) → List Char → List Char
  | none, [] => []
  | some digits, [] => '\\' :: 'u' :: '{' :: digits.reverse
  | some digits, '}' :: cs =>
    match (hexNumber? digits.reverse).bind scalar? with
    | some c => c :: decodeEscapes none cs
    | none => '\\' :: 'u' :: '{' :: (digits.reverse ++ '}' :: decodeEscapes none cs)
  | some digits, c :: cs => decodeEscapes (some (c :: digits)) cs
  | none, '\\' :: 'u' :: '{' :: cs => decodeEscapes (some []) cs
  | none, '\\' :: 'u' :: w :: x :: y :: z :: cs =>
    match (hexNumber? [w, x, y, z]).bind scalar? with
    | some c => c :: decodeEscapes none cs
    | none => '\\' :: 'u' :: w :: x :: y :: z :: decodeEscapes none cs
  | none, c :: cs => c :: decodeEscapes none cs

/-- The name that an identifier token spells. -/
def identifierName (t : Token) : String :=
  if t.escaped then String.ofList (decodeEscapes none t.text.toList) else t.text

/-- The state in which a token refers to a binding. -/
def State.refer (s : State) (t : Token) : State :=
  let node : IdentifierNode := { name := identifierName t, role := .reference }
  { s.addNode (.identifier node) t.span s.scope with
    references := s.references.push ⟨s.nodes.size⟩ }

/-- Records that a token refers to a binding. -/
def refer (t : Token) : Parser Unit :=
  modify (·.refer t)

/-- The state in which the name of a token is declared. -/
def State.bind (s : State) (t : Token) (site : BindingSite) : State :=
  let id : NodeId := ⟨s.nodes.size⟩
  let site := { site with exported := site.exported || s.exporting }
  let scope := if site.kind = .var then s.scopes.varScope s.scope else s.scope
  let name := identifierName t
  let grown := s.addNode (.identifier { name, role := .binding site }) t.span scope
  { grown with scopes := grown.scopes.declare scope name id }

/-- Declares the name of a token. -/
def bind (t : Token) (site : BindingSite) : Parser NodeId :=
  modifyGet fun s => (⟨s.nodes.size⟩, s.bind t site)

/-- Declares the name of the current token, which is read. -/
def bindCurrent (site : BindingSite) : Parser NodeId := do
  let id ← bind (← currentToken) site
  bump
  return id

/-- Declares the name of the current token as a binding of the given kind. -/
def bindName (kind : BindingKind) : Parser NodeId :=
  bindCurrent { kind }

/-! ### Directives -/

/-- Strings that are statements of their own. Gives the end of the last one. -/
def directives : Parser (Option Nat) :=
  loop none fun last => do
    if (← currentKind) != .string then return .inr last
    let next ← peek
    unless next.kind == .endOfText || next.newlineBefore || next.isPunctuator ";" ||
        next.isPunctuator "\x7d" do
      return .inr last
    within .statement (← currentStart) do
      bump
      consumeSemicolon
    return .inl (some (← previousStop))

end BindingRepair.Script.Grammar
