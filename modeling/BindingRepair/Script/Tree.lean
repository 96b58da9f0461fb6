/-
# Script trees

A tree holds what repairs need to know of a script: statements, declarations, functions, classes,
elements and every identifier with its role. All else stays text. Nodes are numbered in the order in
which they are created; the first is the module.
-/

import BindingRepair.Identifier
import BindingRepair.Script.Scope
import BindingRepair.Text.Lines
import BindingRepair.Text.Span

namespace BindingRepair.Script

open Text

/-- The language extensions of a script. -/
structure Dialect where
  typescript : Bool
  jsx : Bool
deriving DecidableEq, Repr

namespace Dialect

/-- Plain scripts may hold elements, as bundlers commonly allow. -/
def javascript : Dialect := ⟨false, true⟩

def typed : Dialect := ⟨true, false⟩

def typedElements : Dialect := ⟨true, true⟩

/-- The dialect of files with an extension; none if such files hold no script. -/
def ofExtension? (extension : String) : Option Dialect :=
  match extension.map Char.toLower with
  | "js" | "jsx" | "mjs" | "cjs" => some javascript
  | "ts" | "mts" | "cts" => some typed
  | "tsx" => some typedElements
  | _ => none

end Dialect

inductive BindingKind
  | var
  | let
  | const
  | function
  | className
  | param
  | catchParam
  | imported
  /-- Names of enumerations, namespaces and ambient declarations. -/
  | ambient
deriving DecidableEq, Repr

/-- How a name is declared. -/
structure BindingSite where
  kind : BindingKind
  /-- The name is also the key of the property that it takes from an object. -/
  shorthand : Bool := false
  /-- The name is also the name of the export that it imports. -/
  unaliased : Bool := false
  /-- The declaration is exported. -/
  exported : Bool := false
deriving DecidableEq, Repr

inductive IdentifierRole
  | binding (site : BindingSite)
  | reference
deriving DecidableEq, Repr

structure IdentifierNode where
  name : String
  role : IdentifierRole
  /-- The name in the source, if it has been changed since. -/
  renamedFrom : Option String := none
  /-- The identifier is not in the source. -/
  synthesized : Bool := false
deriving DecidableEq, Repr

/-- How the identifier declares its name, if it does. -/
def IdentifierNode.site? (i : IdentifierNode) : Option BindingSite :=
  match i.role with
  | .binding site => some site
  | .reference => none

structure ImportSpecifier where
  /-- The name of the export. -/
  imported : String
  /-- The identifier that binds it. -/
  localNode : NodeId
  typeOnly : Bool
  span : Span
deriving DecidableEq, Repr

/-- The braces of an import declaration and what they hold. -/
structure NamedImports where
  /-- Offset of the opening brace. -/
  opening : Nat
  /-- Offset of the closing brace. -/
  closing : Nat
  specifiers : List ImportSpecifier
deriving DecidableEq, Repr

structure ImportNode where
  /-- The module, without quotes. -/
  source : String
  typeOnly : Bool := false
  defaultName : Option NodeId := none
  namespaceName : Option NodeId := none
  named : Option NamedImports := none
  /-- Identifiers that are not in the source. -/
  added : List NodeId := []
deriving DecidableEq, Repr

namespace ImportNode

/-- Whether names can be added to the declaration. -/
def acceptsNames (i : ImportNode) : Bool :=
  !i.typeOnly && i.namespaceName.isNone && (i.named.isSome || i.defaultName.isSome)

/-- The identifiers that the declaration binds. -/
def localNodes (i : ImportNode) : List NodeId :=
  i.defaultName.toList ++ i.namespaceName.toList ++
    (i.named.map fun n => n.specifiers.map (·.localNode)).getD [] ++ i.added

end ImportNode

structure FunctionBody where
  scope : ScopeId
  /-- Offset of the opening brace. -/
  opening : Nat
  /-- Offset of the closing brace. -/
  closing : Nat
  /-- End of the last directive. -/
  directivesEnd : Option Nat
  /-- Start of the first statement that is no directive. -/
  firstStatement : Option Nat
deriving DecidableEq, Repr

structure FunctionNode where
  name : Option NodeId := none
  arrow : Bool := false
  /-- None if the function is an expression or has no body. -/
  body : Option FunctionBody := none
deriving DecidableEq, Repr

structure DeclaratorNode where
  /-- The declared identifier, if it is no pattern. -/
  name : Option NodeId := none
  /-- The initial value, if it is a function. -/
  function : Option NodeId := none
deriving DecidableEq, Repr

inductive VarKind
  | var
  | let
  | const
deriving DecidableEq, Repr

structure ModuleNode where
  /-- End of the line that begins with a hash and an exclamation mark. -/
  hashbangEnd : Option Nat
  /-- End of the last directive. -/
  directivesEnd : Option Nat
deriving DecidableEq, Repr

/-- A declaration that is not in the source. -/
inductive SynthesizedDeclaration
  /-- Binds a value and its setter to the call of a state primitive. -/
  | state (value setter : NodeId) (callee : String)
  /-- Binds a name to null. -/
  | null (name : NodeId)
deriving DecidableEq, Repr

inductive NodeKind
  | module (node : ModuleNode)
  | importDeclaration (node : ImportNode)
  | exportDeclaration (isDefault : Bool)
  | varDeclaration (kind : VarKind)
  | declarator (node : DeclaratorNode)
  | function (node : FunctionNode)
  | classNode
  | block
  /-- Any other statement. -/
  | statement
  /-- A declaration that is about types only. -/
  | typeDeclaration
  | element
  | identifier (node : IdentifierNode)
  | synthesized (declaration : SynthesizedDeclaration)
deriving DecidableEq, Repr

structure Node where
  kind : NodeKind
  span : Span
  /-- The scope around the node; of a binding, the scope that it is declared in. -/
  scope : ScopeId
  parent : Option NodeId
  children : Array NodeId
deriving Repr

/-- The nodes with one more, which is the last child of its parent. -/
def appendNode (nodes : Array Node) (kind : NodeKind) (span : Span) (scope : ScopeId)
    (parent : Option NodeId) : Array Node :=
  let grown := nodes.push { kind, span, scope, parent, children := #[] }
  match parent with
  | none => grown
  | some p => grown.modify p.index fun n => { n with children := n.children.push ⟨nodes.size⟩ }

inductive IndentUnit
  | tab
  | twoSpaces
  | fourSpaces
deriving DecidableEq, Repr

def IndentUnit.text : IndentUnit → String
  | .tab => "\t"
  | .twoSpaces => "  "
  | .fourSpaces => "    "

/-- The habits of a source. -/
structure SourceStyle where
  semicolons : Bool
  quote : Char
  indent : IndentUnit
deriving DecidableEq, Repr

/-- Where the text of a node that is not in the source goes, and what is written around it. -/
structure Insertion where
  offset : Nat
  node : NodeId
  lead : String
  trail : String
deriving DecidableEq, Repr

structure Tree where
  source : List Char
  dialect : Dialect
  lines : LineTable
  nodes : Array Node
  scopes : ScopeForest
  /-- The identifiers that refer to a binding, in source order. -/
  references : Array NodeId
  insertions : List Insertion
  style : SourceStyle

namespace Tree

def root : NodeId := ⟨0⟩

def moduleScope : ScopeId := ⟨0⟩

def size (t : Tree) : Nat :=
  t.nodes.size

def node? (t : Tree) (id : NodeId) : Option Node :=
  t.nodes[id.index]?

def kind? (t : Tree) (id : NodeId) : Option NodeKind :=
  (t.node? id).map (·.kind)

def childrenOf (t : Tree) (id : NodeId) : List NodeId :=
  ((t.node? id).map (·.children.toList)).getD []

def scopeOf (t : Tree) (id : NodeId) : ScopeId :=
  ((t.node? id).map (·.scope)).getD moduleScope

def spanOf (t : Tree) (id : NodeId) : Span :=
  ((t.node? id).map (·.span)).getD ⟨0, 0⟩

def identifier? (t : Tree) (id : NodeId) : Option IdentifierNode :=
  match t.kind? id with
  | some (.identifier i) => some i
  | _ => none

def import? (t : Tree) (id : NodeId) : Option ImportNode :=
  match t.kind? id with
  | some (.importDeclaration i) => some i
  | _ => none

def function? (t : Tree) (id : NodeId) : Option FunctionNode :=
  match t.kind? id with
  | some (.function f) => some f
  | _ => none

/-- The statements of the module, then the imports that are not in the source. -/
def topLevel (t : Tree) : List NodeId :=
  t.childrenOf root

def position (t : Tree) (offset : Nat) : Position :=
  t.lines.position t.source offset

def offset? (t : Tree) (p : Position) : Option Nat :=
  t.lines.offset? t.source p

/-- The import declarations of the module. -/
def imports (t : Tree) : List (NodeId × ImportNode) :=
  t.topLevel.filterMap fun id => (t.import? id).map (id, ·)

/-- The current name of an identifier. -/
def name? (t : Tree) (id : NodeId) : Option String :=
  (t.identifier? id).map (·.name)

/-- The scope that a reference refers to. -/
def resolve? (t : Tree) (reference : NodeId) : Option ScopeId := do
  t.scopes.resolve? (t.scopeOf reference) (← t.name? reference)

/-- Whether some reference refers to the name that a node binds. -/
def isReferenced (t : Tree) (binding : NodeId) : Bool :=
  match t.name? binding with
  | none => false
  | some name => t.references.any fun r =>
      t.name? r == some name && t.scopes.resolve? (t.scopeOf r) name == some (t.scopeOf binding)

/-- Whether a name refers to something when it is used in a scope. -/
def isVisible (t : Tree) (s : ScopeId) (name : String) : Bool :=
  (t.scopes.resolve? s name).isSome

/-- Whether some reference inside a scope would change its meaning if the name were bound there. -/
def wouldCapture (t : Tree) (s : ScopeId) (name : String) : Bool :=
  t.references.any fun r =>
    t.name? r == some name && t.scopes.isWithin (t.scopeOf r) s &&
      match t.scopes.resolve? (t.scopeOf r) name with
      | none => true
      | some found => !t.scopes.isWithin found s

/-- Whether an optional node is an identifier that begins with an upper-case letter. -/
def isCapitalized (t : Tree) (name : Option NodeId) : Bool :=
  (name.bind t.name?).any startsUpper

/-- The function of a declarator that makes it a component. -/
def componentOfDeclarator? (t : Tree) (id : NodeId) : Option NodeId :=
  match t.kind? id with
  | some (.declarator d) => do
    let function ← d.function
    let node ← t.function? function
    if t.isCapitalized d.name && node.body.isSome then some function else none
  | _ => none

/-- The component that a statement declares, exported or not: a function with a body in braces
whose name begins with an upper-case letter. -/
def componentOfStatement? (t : Tree) (id : NodeId) : Option NodeId :=
  match t.kind? id with
  | some (.function f) => if t.isCapitalized f.name && f.body.isSome then some id else none
  | some (.exportDeclaration _) => (t.childrenOf id).findSome? fun c =>
      if id.index < c.index ∧ c.index < t.size then t.componentOfStatement? c else none
  | some (.varDeclaration _) => (t.childrenOf id).findSome? t.componentOfDeclarator?
  | _ => none
termination_by t.size - id.index

/-- The first component that the module declares. -/
def firstComponent? (t : Tree) : Option NodeId :=
  t.topLevel.findSome? t.componentOfStatement?

end Tree

end BindingRepair.Script
