/-
# Grammar

The grammar of scripts as a whole. `rule` reads the construct of each rule with the parsers for all
rules, `derive` ties the knot with a bound on the depth of calls, and `parse` reads a whole source.
-/

import BindingRepair.Script.Grammar.Modules

namespace BindingRepair.Script

open Text

namespace Grammar

/-- Whether an import declaration begins with the word `import`, and no expression. -/
def importDeclares : Parser Bool := do
  return !(← peekIs "(") && !(← peekIs ".")

/-- Whether the words of a type declaration begin with a word. -/
def mayBeginTypeDeclaration (word : String) : Bool :=
  ["interface", "type", "enum", "declare", "abstract", "namespace", "module", "global"].contains word

/-- A declaration that begins with a word. Answers no, and reads nothing, where the word begins a
statement. -/
def declarationOf (rules : Rules) (word : String) : Parser Bool := do
  match word with
  | "import" =>
    unless ← importDeclares do return false
    importDeclaration
  | "export" => exportDeclaration rules
  | "function" => functionDeclaration rules false false
  | "async" =>
    unless ← asyncFunctionAhead do return false
    functionDeclaration rules true false
  | "class" => classNode rules true false
  | "const" =>
    if (← isTypescript) && (← peekIsWord "enum") then enumDeclaration else varStatement rules
  | "var" => varStatement rules
  | "let" =>
    unless ← letDeclares do return false
    varStatement rules
  | word =>
    unless (← isTypescript) && mayBeginTypeDeclaration word do return false
    unless ← typeDeclaration rules do return false
  return true

/-- A statement or declaration, perhaps with decorators before it. -/
def bareItem (rules : Rules) : Parser Unit := do
  let t ← currentToken
  if t.isWord then
    if ← declarationOf rules t.text then return
  if ← isAt "@" then
    decorators rules
    rules .bareItem
  else statement rules

/-- Reads the construct of a rule. -/
def rule (rules : Rules) : (r : Rule) → Parser r.Result
  | .item => nested (rules .bareItem)
  | .bareItem => bareItem rules
  | .assignment noIn => nested (assignment rules noIn)
  | .binary precedence noIn => binary rules precedence noIn
  | .unary => nested (unary rules)
  | .callee => callee rules
  | .construction => construction rules
  | .target kind => nested (bindingTarget rules kind)
  | .element => nested (element rules)
  | .type => nested (typeExpression rules)
  | .typeOperand => nested (typeOperand rules)

/-- Reads the construct of a rule with at most `n` constructs around each other. -/
def derive : (n : Nat) → Rules
  | 0 => fun _ => exhausted
  | n + 1 => fun r => rule (derive n) r

/-! ### Whole sources -/

/-- A source holds at most as many tokens as characters, and from one token to the next calls of
rules nest less than sixteen deep. -/
def callBound (c : Context) : Nat :=
  16 * c.bound

/-- The end of a first line that begins with a hash and an exclamation mark. -/
def hashbangEnd? (source : List Char) : Option Nat :=
  match source with
  | '#' :: '!' :: _ => some (byteLength (source.takeWhile fun c => c != '\n' && c != '\r'))
  | _ => none

/-- The statements of a module. -/
def moduleBody (source : List Char) : Parser Unit := do
  let rules := derive (callBound (← read))
  let hashbangEnd := hashbangEnd? source
  let root ← openNode (.module { hashbangEnd, directivesEnd := none }) 0
  let directivesEnd ← directives
  repeatWhile do
    if ← isAtEnd then return false
    rules .item
    return true
  closeNodeAt root (byteLength source)
  setKind root (.module { hashbangEnd, directivesEnd })

/-- Before the first token. -/
def initialState (source : List Char) : State :=
  { token := Token.read (Cursor.start source)
    previousEnd := Cursor.start source
    nodes := #[]
    scopes := (ScopeForest.empty.add .module none).2
    references := #[]
    opened := []
    scope := Tree.moduleScope
    depth := 0
    inGenerator := false
    exporting := false
    explicitSemicolons := 0
    insertedSemicolons := 0
    singleQuotes := 0
    doubleQuotes := 0 }

/-- How many lines are indented by tabs, by multiples of four spaces and by other even numbers of
spaces. -/
structure IndentCounts where
  tabs : Nat := 0
  fours : Nat := 0
  twos : Nat := 0

/-- Counts the indentation of a line. Lines without text count only if a tab opens them. -/
def IndentCounts.addLine (n : IndentCounts) (line : List Char) : IndentCounts :=
  if line.head? == some '\t' then { n with tabs := n.tabs + 1 }
  else
    let spaces := (line.takeWhile (· == ' ')).length
    if spaces == 0 || line.all Unicode.isBlank then n
    else if spaces % 4 == 0 then { n with fours := n.fours + 1 }
    else if spaces % 4 == 2 then { n with twos := n.twos + 1 }
    else n

/-- The parts of a text between line feeds. -/
def splitLines (text : List Char) : List (List Char) :=
  text.splitOn '\n'

/-- The step by which most indented lines of a source are indented. -/
def detectIndent (source : List Char) : IndentUnit :=
  let n := (splitLines source).foldl IndentCounts.addLine {}
  if n.tabs > n.twos + n.fours then .tab
  else if n.twos == 0 && n.fours > 0 then .fourSpaces
  else .twoSpaces

/-- The habits of a source, as far as they show after parsing it. -/
def styleOf (source : List Char) (s : State) : SourceStyle :=
  { semicolons := s.insertedSemicolons ≤ s.explicitSemicolons
    quote := if s.singleQuotes < s.doubleQuotes then '"' else '\''
    indent := detectIndent source }

end Grammar

/-- Why a source cannot be parsed, and where. -/
structure ParseError where
  /-- Line and column, both counted from 1. -/
  line : Nat
  column : Nat
  cause : Grammar.Cause
deriving DecidableEq, Repr

namespace ParseError

def foundText : Grammar.Found → String
  | .endOfText => "end of file"
  | .invalid => "invalid or unterminated token"
  | .token text => "token `" ++ text ++ "`"

def causeText : Grammar.Cause → String
  | .unexpected found => "unexpected " ++ foundText found
  | .expected what found => "expected `" ++ what ++ "`, found " ++ foundText found
  | .nestedTooDeeply => "nesting too deep"
  | .exhausted => "too many steps"

/-- The error in words, behind its place. -/
def message (e : ParseError) : String :=
  toString e.line ++ ":" ++ toString e.column ++ ": " ++ causeText e.cause

/-- The error of a failure in a source. -/
def ofFailure (source : List Char) (f : Grammar.Failure) : ParseError :=
  let p := (LineTable.ofText source).position source f.offset
  { line := p.line, column := p.column + 1, cause := f.cause }

end ParseError

/-- The tree of a parsed source. -/
def Tree.ofState (source : List Char) (dialect : Dialect) (s : Grammar.State) : Tree :=
  { source
    dialect
    lines := LineTable.ofText source
    nodes := s.nodes
    scopes := s.scopes
    references := s.references
    insertions := []
    style := Grammar.styleOf source s }

/-- Parses the characters of a module. -/
def parseChars (source : List Char) (dialect : Dialect) : Except ParseError Tree :=
  let c : Grammar.Context := { dialect, bound := byteLength source + 2 }
  match Grammar.moduleBody source c (Grammar.initialState source) with
  | .ok () s => .ok (Tree.ofState source dialect s)
  | .error f _ => .error (ParseError.ofFailure source f)

/-- Parses a module. -/
def parse (source : String) (dialect : Dialect) : Except ParseError Tree :=
  parseChars source.toList dialect

end BindingRepair.Script
