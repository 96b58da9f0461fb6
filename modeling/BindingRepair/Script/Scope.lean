/-
# Scopes

The lexical scopes of a script form a forest in which every scope is numbered after the scope around
it. Each scope lists the names bound in it, in alphabetical order, and under each name the nodes that
bind it, in the order of their declaration.
-/

namespace BindingRepair.Script

/-- A node of a tree, by its place in the order of creation. -/
structure NodeId where
  index : Nat
deriving DecidableEq, Repr, Inhabited

/-- A scope, by its place in the order of creation. -/
structure ScopeId where
  index : Nat
deriving DecidableEq, Repr, Inhabited

inductive ScopeKind
  | module
  /-- Functions, arrows, class field initializers and static blocks. -/
  | function
  | block
  | catchClause
  | classBody
deriving DecidableEq, Repr

/-- Whether `var` declarations belong to scopes of the kind. -/
def ScopeKind.holdsVars : ScopeKind → Bool
  | .module | .function => true
  | .block | .catchClause | .classBody => false

/-- Bound names in ascending order, each with the nodes that bind it. -/
abbrev NameTable := List (String × List NodeId)

namespace NameTable

/-- The table with one more node under a name. -/
def add (name : String) (node : NodeId) : NameTable → NameTable
  | [] => [(name, [node])]
  | (n, nodes) :: rest =>
    if name = n then (n, nodes ++ [node]) :: rest
    else if name < n then (name, [node]) :: (n, nodes) :: rest
    else (n, nodes) :: add name node rest

/-- The table without a node under a name; a name that no node is left under leaves the table. -/
def remove (name : String) (node : NodeId) : NameTable → NameTable
  | [] => []
  | (n, nodes) :: rest =>
    if name = n then
      let left := nodes.filter (· ≠ node)
      if left.isEmpty then rest else (n, left) :: rest
    else (n, nodes) :: remove name node rest

/-- The nodes under a name. -/
def nodesOf (table : NameTable) (name : String) : List NodeId :=
  (table.lookup name).getD []

/-- Whether a name is in the table. -/
def binds (table : NameTable) (name : String) : Bool :=
  (table.lookup name).isSome

end NameTable

structure Scope where
  kind : ScopeKind
  parent : Option ScopeId
  children : List ScopeId
  bindings : NameTable
deriving Repr

/-- All scopes of a script, by number. -/
structure ScopeForest where
  scopes : Array Scope
deriving Repr

namespace ScopeForest

def empty : ScopeForest :=
  ⟨#[]⟩

def size (f : ScopeForest) : Nat :=
  f.scopes.size

def get? (f : ScopeForest) (s : ScopeId) : Option Scope :=
  f.scopes[s.index]?

def parent? (f : ScopeForest) (s : ScopeId) : Option ScopeId :=
  (f.get? s).bind (·.parent)

def childrenOf (f : ScopeForest) (s : ScopeId) : List ScopeId :=
  ((f.get? s).map (·.children)).getD []

def bindingsOf (f : ScopeForest) (s : ScopeId) : NameTable :=
  ((f.get? s).map (·.bindings)).getD []

/-- Changes one scope. -/
def modify (f : ScopeForest) (s : ScopeId) (change : Scope → Scope) : ScopeForest :=
  ⟨f.scopes.modify s.index change⟩

/-- A new scope inside `parent`, and the forest with it. -/
def add (f : ScopeForest) (kind : ScopeKind) (parent : Option ScopeId) : ScopeId × ScopeForest :=
  let id : ScopeId := ⟨f.size⟩
  let grown : ScopeForest := ⟨f.scopes.push { kind, parent, children := [], bindings := [] }⟩
  match parent with
  | none => (id, grown)
  | some p => (id, grown.modify p fun scope => { scope with children := scope.children ++ [id] })

/-- Records that a node binds a name in a scope. -/
def declare (f : ScopeForest) (s : ScopeId) (name : String) (node : NodeId) : ScopeForest :=
  f.modify s fun scope => { scope with bindings := scope.bindings.add name node }

/-- Forgets that a node binds a name in a scope. -/
def undeclare (f : ScopeForest) (s : ScopeId) (name : String) (node : NodeId) : ScopeForest :=
  f.modify s fun scope => { scope with bindings := scope.bindings.remove name node }

/-- A scope and the scopes around it, from the inside out. -/
def chain (f : ScopeForest) (s : ScopeId) : List ScopeId :=
  s :: match f.parent? s with
    | none => []
    | some p => if p.index < s.index then f.chain p else []
termination_by s.index

/-- The innermost scope around `s`, itself included, that `var` declarations belong to. -/
def varScope (f : ScopeForest) (s : ScopeId) : ScopeId :=
  ((f.chain s).find? fun t => (f.get? t).any (·.kind.holdsVars)).getD s

/-- Whether a name is bound in the scope itself. -/
def binds (f : ScopeForest) (s : ScopeId) (name : String) : Bool :=
  (f.bindingsOf s).binds name

/-- The scope that a name refers to when it is used in `s`: the innermost one that binds it. -/
def resolve? (f : ScopeForest) (s : ScopeId) (name : String) : Option ScopeId :=
  (f.chain s).find? (f.binds · name)

/-- Whether a scope is another or lies inside it. -/
def isWithin (f : ScopeForest) (inner outer : ScopeId) : Bool :=
  (f.chain inner).contains outer

/-- Whether a name is bound in the scope or in any scope inside it. -/
def bindsBelow (f : ScopeForest) (s : ScopeId) (name : String) : Bool :=
  f.binds s name || (f.childrenOf s).any fun c =>
    if s.index < c.index ∧ c.index < f.size then f.bindsBelow c name else false
termination_by f.size - s.index

end ScopeForest

end BindingRepair.Script
