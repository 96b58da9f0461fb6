/-
# Edits of a tree

Edits leave the source as it is. They change nodes and scopes, and record where the text of new nodes
is to go. The scopes always list the bindings of the tree as they are after the edit.
-/

import BindingRepair.Script.Tree

namespace BindingRepair.Script

open Text

/-- Why a tree cannot be edited at a node. -/
inductive EditError
  | notABinding (node : NodeId)
  | notAnImport (node : NodeId)
  | closedImport (source : String)
  | noBlockBody (node : NodeId)
deriving DecidableEq, Repr

namespace EditError

def nodeText (node : NodeId) : String :=
  "node NodeId(" ++ toString node.index ++ ")"

/-- The error in words. -/
def message : EditError → String
  | notABinding node => nodeText node ++ " is not a binding identifier"
  | notAnImport node => nodeText node ++ " is not an import declaration"
  | closedImport source => "import from '" ++ source ++ "' cannot take named specifiers"
  | noBlockBody node => nodeText node ++ " is not a function with a block body"

end EditError

namespace Tree

/-! ### Places in the source -/

/-- The place at an offset. -/
def cursorAt (t : Tree) (offset : Nat) : Cursor :=
  ⟨offset, dropBytes offset t.source⟩

/-- The end of the blanks and comments from an offset on, if nothing else stands on the line.
`inComment` tells whether the offset lies in a comment in brackets, which must end on the line. -/
def lineTriviaEnd? (inComment : Bool) (offset : Nat) : List Char → Option Nat
  | [] => if inComment then none else some offset
  | c :: cs =>
    if inComment then
      match c, cs with
      | '*', '/' :: rest => lineTriviaEnd? false (offset + 2) rest
      | '\n', _ => none
      | c, rest => lineTriviaEnd? true (offset + c.utf8Size) rest
    else
      match c, cs with
      | '/', '/' :: rest =>
        some (Cursor.skipWhile (fun c => c != '\n' && c != '\r') ⟨offset + 2, rest⟩).offset
      | '/', '*' :: rest => lineTriviaEnd? true (offset + 2) rest
      | c, rest =>
        if c == ' ' || c == '\t' then lineTriviaEnd? false (offset + 1) rest
        else if c == '\n' || c == '\r' then some offset
        else none

/-- An offset, moved over the blanks and comments that end its line. -/
def endOfLineTrivia (t : Tree) (offset : Nat) : Nat :=
  (lineTriviaEnd? false offset (t.cursorAt offset).rest).getD offset

/-- The line terminator of the source. -/
def newline (t : Tree) : String :=
  if ((Cursor.start t.source).after? '\r' '\n').isSome then "\r\n" else "\n"

def module? (t : Tree) : Option ModuleNode :=
  match t.kind? root with
  | some (.module m) => some m
  | _ => none

/-- The end of the last import before any other of the given statements, directives apart. -/
def lastLeadingImport? (t : Tree) (directivesEnd : Option Nat) (last : Option Nat) :
    List NodeId → Option Nat
  | [] => last
  | id :: ids =>
    let span := t.spanOf id
    if directivesEnd.any (span.stop ≤ ·) && !span.isEmpty then
      t.lastLeadingImport? directivesEnd last ids
    else if (t.import? id).isSome then
      t.lastLeadingImport? directivesEnd (if span.isEmpty then last else some span.stop) ids
    else last

/-- Where the imports at the beginning of the module end, with the comments behind them. -/
def leadingImportsEnd? (t : Tree) : Option Nat :=
  (t.lastLeadingImport? (t.module?.bind (·.directivesEnd)) none t.topLevel).map t.endOfLineTrivia

/-- Where the directives of the module end, or else its first line with a hash and an exclamation
mark. -/
def prologueEnd? (t : Tree) : Option Nat := do
  let m ← t.module?
  m.directivesEnd <|> m.hashbangEnd

/-! ### New nodes -/

def modifyNode (t : Tree) (id : NodeId) (change : Node → Node) : Tree :=
  { t with nodes := t.nodes.modify id.index change }

/-- Adds a node that is not in the source, as the last child of `parent`. -/
def addNode (t : Tree) (kind : NodeKind) (parent : NodeId) (scope : ScopeId) (offset : Nat) :
    NodeId × Tree :=
  (⟨t.size⟩, { t with nodes := appendNode t.nodes kind (Span.emptyAt offset) scope (some parent) })

/-- Adds a binding that is not in the source. -/
def addBinding (t : Tree) (parent : NodeId) (scope : ScopeId) (name : String)
    (kind : BindingKind) : NodeId × Tree :=
  let node : IdentifierNode := { name, role := .binding { kind }, synthesized := true }
  let (id, grown) := t.addNode (.identifier node) parent scope (t.spanOf parent).start
  (id, { grown with scopes := grown.scopes.declare scope name id })

/-- Adds a name to an import declaration. -/
def addImportedName (t : Tree) (importId : NodeId) (name : String) : Tree :=
  let (id, grown) := t.addBinding importId moduleScope name .imported
  grown.modifyNode importId fun n =>
    { n with kind := match n.kind with
      | .importDeclaration i => .importDeclaration { i with added := i.added ++ [id] }
      | kind => kind }

/-! ### Edits -/

/-- Gives a binding another name. References keep theirs. -/
def rename (t : Tree) (id : NodeId) (name : String) : Except EditError Tree :=
  match t.identifier? id with
  | none => .error (.notABinding id)
  | some i =>
    if i.site?.isNone then .error (.notABinding id)
    else
      let scope := t.scopeOf id
      let renamedFrom :=
        if i.renamedFrom.isNone && !i.synthesized then some i.name else i.renamedFrom
      let changed := t.modifyNode id fun n => { n with kind := .identifier { i with name, renamedFrom } }
      .ok { changed with scopes := (changed.scopes.undeclare scope i.name id).declare scope name id }

/-- Adds names to an import declaration. -/
def addImportNames (t : Tree) (importId : NodeId) (names : List String) : Except EditError Tree :=
  match t.import? importId with
  | none => .error (.notAnImport importId)
  | some i =>
    if !(t.spanOf importId).isEmpty && !i.acceptsNames then .error (.closedImport i.source)
    else .ok (names.foldl (·.addImportedName importId) t)

/-- Where a new import declaration goes, and what is written before and behind it. -/
def importPlace (t : Tree) : Nat × String × String :=
  match t.leadingImportsEnd? with
  | some offset => (offset, t.newline, "")
  | none =>
    match t.prologueEnd? with
    | some offset => (t.endOfLineTrivia offset, t.newline, "")
    | none => (0, "", t.newline)

/-- Imports names from a module by a new declaration behind the first imports. -/
def insertImport (t : Tree) (module : String) (names : List String) : NodeId × Tree :=
  let (offset, lead, trail) := t.importPlace
  let (id, grown) := t.addNode (.importDeclaration { source := module }) root moduleScope offset
  let named := names.foldl (·.addImportedName id) grown
  (id, { named with insertions := named.insertions ++ [{ offset, node := id, lead, trail }] })

/-- The body in braces of a function. -/
def blockBody (t : Tree) (function : NodeId) : Except EditError FunctionBody :=
  match (t.function? function).bind (·.body) with
  | some body => .ok body
  | none => .error (.noBlockBody function)

/-- Where a new declaration at the top of a body goes, and what is written before and behind it: on a
line of its own behind the directives, indented like the first statement. -/
def declarationPlace (t : Tree) (body : FunctionBody) : Nat × String × String :=
  let outer := t.newline ++ String.ofList (t.lines.indentAt t.source body.opening)
  let inner := outer ++ t.style.indent.text
  let anchor := body.directivesEnd.getD (body.opening + 1)
  let sharesLine (offset : Nat) : Bool := t.lines.lineAt offset == t.lines.lineAt anchor
  match body.firstStatement with
  | some first =>
    if sharesLine first then (first, inner, inner)
    else
      let indent := String.ofList (t.lines.indentAt t.source first)
      (t.endOfLineTrivia anchor, t.newline ++ indent, "")
  | none =>
    if sharesLine body.closing then (anchor, inner, outer)
    else (t.endOfLineTrivia anchor, inner, "")

def isSynthesizedDeclaration (t : Tree) (id : NodeId) : Bool :=
  match t.kind? id with
  | some (.synthesized _) => true
  | _ => false

/-- Records where the text of a new declaration goes. Of several declarations at one offset only the
last keeps what is written behind it. -/
def placeDeclaration (t : Tree) (body : FunctionBody) (declaration : NodeId) : Tree :=
  let (offset, lead, trail) := t.declarationPlace body
  let joins (i : Insertion) : Bool := i.offset == offset && t.isSynthesizedDeclaration i.node
  let trail := (t.insertions.filter joins).foldl
    (fun trail i => if trail.isEmpty then i.trail else trail) trail
  let earlier := t.insertions.map fun i => if joins i then { i with trail := "" } else i
  let placed := t.modifyNode declaration fun n => { n with span := Span.emptyAt offset }
  { placed with insertions := earlier ++ [{ offset, node := declaration, lead, trail }] }

/-- Makes a new statement a declaration, whose text goes to the top of a body. -/
def synthesize (t : Tree) (id : NodeId) (declaration : SynthesizedDeclaration)
    (body : FunctionBody) : Tree :=
  let t := t.modifyNode id fun n => { n with kind := .synthesized declaration }
  t.placeDeclaration body id

/-- Declares a value and its setter, bound to the call of a state primitive, at the top of a
function. -/
def declareState (t : Tree) (function : NodeId) (value setter callee : String) :
    Except EditError (NodeId × Tree) := do
  let body ← t.blockBody function
  let (id, t) := t.addNode .statement function body.scope (body.opening + 1)
  let (valueId, t) := t.addBinding id body.scope value .const
  let (setterId, t) := t.addBinding id body.scope setter .const
  return (id, t.synthesize id (.state valueId setterId callee) body)

/-- Declares a name, bound to null, at the top of a function. -/
def declareNull (t : Tree) (function : NodeId) (name : String) :
    Except EditError (NodeId × Tree) := do
  let body ← t.blockBody function
  let (id, t) := t.addNode .statement function body.scope (body.opening + 1)
  let (nameId, t) := t.addBinding id body.scope name .let
  return (id, t.synthesize id (.null nameId) body)

/-- Whether a node is an identifier that has been renamed. -/
def isRenamed (n : Node) : Bool :=
  match n.kind with
  | .identifier i => i.renamedFrom.isSome
  | _ => false

/-- Whether anything has been edited. -/
def isModified (t : Tree) : Bool :=
  !t.insertions.isEmpty || t.imports.any (fun (_, i) => !i.added.isEmpty) || t.nodes.any isRenamed

end Tree

end BindingRepair.Script
