/-
# Growth of the tree

Parsers change the tree that they build only by a few steps: a node is opened, closed or given another
kind, a reference or a binding is added, a scope is entered or left. A new node begins where all others
have ended, and behind an import not before the next token; the innermost open node ends behind all others.
What every step keeps is kept by every parser.
-/

import BindingRepair.Proofs.Lexer.Gaps
import BindingRepair.Proofs.ScopeGrowth
import BindingRepair.Proofs.Untouched
import Mathlib.Logic.Relation

namespace BindingRepair.Script

open Text

def NodeKind.isImport : NodeKind → Bool
  | importDeclaration _ => true
  | _ => false

/-- The body in braces, if the node has one. -/
def NodeKind.body? : NodeKind → Option FunctionBody
  | function f => f.body
  | _ => none

theorem NodeKind.bodyScope?_eq (kind : NodeKind) : kind.bodyScope? = kind.body?.map (·.scope) := by
  cases kind with
  | function f => rfl
  | _ => rfl

/-- Where the directives of a body end, or else its opening brace. -/
def FunctionBody.anchor (body : FunctionBody) : Nat :=
  body.directivesEnd.getD (body.opening + 1)

section Changes

variable {nodes : Array Node}

/-- Two nodes differ in their children at most. -/
structure Node.Resembles (n m : Node) : Prop where
  kind : n.kind = m.kind
  span : n.span = m.span
  scope : n.scope = m.scope
  parent : n.parent = m.parent

theorem Node.Resembles.refl (n : Node) : n.Resembles n :=
  ⟨rfl, rfl, rfl, rfl⟩

theorem Node.Resembles.trans {n m k : Node} (first : n.Resembles m) (second : m.Resembles k) : n.Resembles k where
  kind := first.kind.trans second.kind
  span := first.span.trans second.span
  scope := first.scope.trans second.scope
  parent := first.parent.trans second.parent

/-- A node is the new one, or one of the old ones. -/
theorem appendNode_cases {kind : NodeKind} {span : Span} {scope : ScopeId} {parent : Option NodeId} {i : Nat}
    {n : Node} (found : (appendNode nodes kind span scope parent)[i]? = some n) :
    i = nodes.size ∧ n.Resembles ⟨kind, span, scope, parent, #[]⟩ ∨
      i < nodes.size ∧ ∃ m, nodes[i]? = some m ∧ n.Resembles m := by
  rw [getElem?_appendNode] at found
  by_cases new : i = nodes.size
  · rw [if_pos new] at found
    obtain rfl := Option.some.inj found
    exact .inl ⟨new, rfl, rfl, rfl, rfl⟩
  · rw [if_neg new] at found
    have known {m : Node} (old : nodes[i]? = some m) : i < nodes.size :=
      (Array.getElem?_eq_some_iff.mp old).choose
    split at found
    · obtain ⟨m, old, rfl⟩ := Option.map_eq_some_iff.mp found
      exact .inr ⟨known old, m, old, rfl, rfl, rfl, rfl⟩
    · exact .inr ⟨known found, n, found, .refl n⟩

/-- A node is the changed one, or as it was. -/
theorem modify_cases {k : Nat} {change : Node → Node} {i : Nat} {n : Node}
    (found : (nodes.modify k change)[i]? = some n) :
    ∃ m, nodes[i]? = some m ∧ (i = k ∧ n = change m ∨ i ≠ k ∧ n = m) := by
  rw [Array.getElem?_modify] at found
  by_cases here : k = i
  · rw [if_pos here] at found
    obtain ⟨m, old, rfl⟩ := Option.map_eq_some_iff.mp found
    exact ⟨m, old, .inl ⟨here.symm, rfl⟩⟩
  · rw [if_neg here] at found
    exact ⟨n, found, .inr ⟨Ne.symm here, rfl⟩⟩

end Changes

/-- The node has its place in the tree and its scope still, and ends no earlier. An identifier is the same. -/
structure Node.IsKept (n m : Node) : Prop where
  isIdentifier : m.kind.isIdentifier = n.kind.isIdentifier
  kind : n.kind.isIdentifier = true → m.kind = n.kind
  span : n.kind.isIdentifier = true → m.span = n.span
  scope : m.scope = n.scope
  parent : m.parent = n.parent
  start : m.span.start = n.span.start
  stop : n.span.stop ≤ m.span.stop

theorem Node.Resembles.isKept {n m : Node} (same : m.Resembles n) : n.IsKept m where
  isIdentifier := by rw [same.kind]
  kind _ := same.kind
  span _ := same.span
  scope := same.scope
  parent := same.parent
  start := by rw [same.span]
  stop := by rw [same.span]

theorem Node.IsKept.refl (n : Node) : n.IsKept n :=
  Node.Resembles.isKept (.refl n)

theorem Node.IsKept.trans {n m k : Node} (first : n.IsKept m) (second : m.IsKept k) : n.IsKept k where
  isIdentifier := second.isIdentifier.trans first.isIdentifier
  kind plain := (second.kind (first.isIdentifier.trans plain)).trans (first.kind plain)
  span plain := (second.span (first.isIdentifier.trans plain)).trans (first.span plain)
  scope := second.scope.trans first.scope
  parent := second.parent.trans first.parent
  start := second.start.trans first.start
  stop := Nat.le_trans first.stop second.stop

/-- The offsets in a body are those of places in the text. -/
structure FunctionBody.Placed (origin : Cursor) (body : FunctionBody) : Prop where
  opening : origin.Marks (body.opening + 1)
  directivesEnd : ∀ o ∈ body.directivesEnd, origin.Marks o
  firstStatement : ∀ o ∈ body.firstStatement, origin.Marks o

/-- The offsets in braces are those of places in the text, in order. -/
structure NamedImports.Placed (origin : Cursor) (named : NamedImports) : Prop where
  opening : origin.Marks named.opening
  closing : origin.SplitsAt (named.closing + 1)
  ordered : named.opening ≤ named.closing
  specifiers : ∀ specifier ∈ named.specifiers, origin.Marks specifier.span.stop

/-- All offsets that a kind names are those of places in the text, and it is no kind of an edit. -/
def NodeKind.Placed (origin : Cursor) : NodeKind → Prop
  | .module m => (∀ o ∈ m.hashbangEnd, origin.Marks o) ∧ ∀ o ∈ m.directivesEnd, origin.Marks o
  | .importDeclaration i => ∀ named ∈ i.named, named.Placed origin
  | .function f => ∀ body ∈ f.body, body.Placed origin
  | .synthesized _ => False
  | _ => True

/-- Identifiers end before a place, or they begin behind the gap there. -/
def FreeGap (nodes : Array Node) (place : Cursor) : Prop :=
  ∀ (i : Nat) (n : Node), nodes[i]? = some n → n.kind.isIdentifier = true →
    n.span.stop < place.offset ∨ gapEnd place ≤ n.span.start

/-- At the offset stands an opening brace. -/
def Opens (origin : Cursor) (offset : Nat) : Prop :=
  ∃ rest, origin.Reaches ⟨offset, '{' :: rest⟩

/-- The nodes but the first end at a place or before it, or they begin behind the gap there. -/
def Parted (nodes : Array Node) (place : Cursor) : Prop :=
  ∀ (i : Nat) (n : Node), nodes[i]? = some n → i ≠ 0 → n.span.stop ≤ place.offset ∨ gapEnd place ≤ n.span.start

/-- The first node is of no account. -/
theorem Parted.congr {nodes nodes' : Array Node} {place : Cursor} (parted : Parted nodes place)
    (same : ∀ i, i ≠ 0 → nodes'[i]? = nodes[i]?) : Parted nodes' place :=
  fun i n found other => parted i n (same i other ▸ found) other

/-- A node `i` in braces takes in the gap at a place. What comes later and begins with a brace begins behind the
gap. -/
structure Node.Brackets (origin : Cursor) (nodes : Array Node) (place : Cursor) (i : Nat) (n : Node) : Prop where
  start : n.span.start < place.offset
  stop : gapEnd place < n.span.stop
  opens : Opens origin n.span.start
  later : ∀ (j : Nat) (m : Node), nodes[j]? = some m → i < j → Opens origin m.span.start → gapEnd place ≤ m.span.start

/-- The gap at a place holds no identifiers, and a node inside `id` takes it in. -/
structure FreeGapIn (origin : Cursor) (nodes : Array Node) (id : NodeId) (place : Cursor) : Prop where
  free : FreeGap nodes place
  taken : ∃ (i : Nat) (n : Node), nodes[i]? = some n ∧ n.parent = some id ∧ n.Brackets origin nodes place i

/-- The declarations at the top of the body of a function belong in a gap between two tokens. -/
def FunctionBody.Fits (origin : Cursor) (nodes : Array Node) (id : NodeId) (body : FunctionBody) : Prop :=
  ∃ place, origin.Passes place ∧ origin.Splits place ∧ place.offset = body.anchor ∧
    (∀ o ∈ body.firstStatement, o = gapEnd place) ∧ FreeGapIn origin nodes id place

/-- The node is an identifier that ends at an offset. -/
def EndsName (nodes : Array Node) (id : NodeId) (stop : Nat) : Prop :=
  ∃ n, nodes[id.index]? = some n ∧ n.kind.isIdentifier = true ∧ n.span.stop = stop

/-- The node is a name that is declared in a scope. -/
def DeclaresIn (nodes : Array Node) (scope : ScopeId) (id : NodeId) : Prop :=
  ∃ n i site, nodes[id.index]? = some n ∧ n.kind = .identifier i ∧ i.role = .binding site ∧ n.scope = scope

/-- The braces of an import lie in its span. The names in them end where their specifiers do, and no name reaches
into them if they are empty. -/
structure NamedImports.Fits (nodes : Array Node) (span : Span) (named : NamedImports) : Prop where
  opening : span.start ≤ named.opening
  closing : named.closing < span.stop
  specifiers : ∀ specifier ∈ named.specifiers, EndsName nodes specifier.localNode specifier.span.stop
  empty : named.specifiers = [] → ∀ (i : Nat) (n : Node), nodes[i]? = some n → n.kind.isIdentifier = true →
    n.span.stop ≤ named.opening ∨ span.stop ≤ n.span.start

/-- An import `i` lies in the text like a statement whose only parts are names: all that has been added after it
are its names, or it begins behind the gap. It parts no line ending. Directly in the module it declares its names
there. -/
structure ImportNode.Fits (origin : Cursor) (nodes : Array Node) (i : Nat) (span : Span) (node : ImportNode) :
    Prop where
  begins : span.start < origin.ends
  splits : origin.SplitsAt span.stop
  later : ∀ (j : Nat) (m : Node), nodes[j]? = some m → i < j →
    m.kind.isIdentifier = true ∧ m.parent = some ⟨i⟩ ∨
      ∀ place, origin.Passes place → place.offset = span.stop → gapEnd place ≤ m.span.start
  defaultName : ∀ name ∈ node.defaultName, ∃ stop, EndsName nodes name stop
  named : ∀ named ∈ node.named, named.Fits nodes span
  declared : ∀ n, nodes[i]? = some n → n.parent = some Tree.root →
    ∀ name ∈ node.localNodes, DeclaresIn nodes Tree.moduleScope name

namespace Grammar

namespace State

/-- The node has been added. -/
def Knows (s : State) (id : NodeId) : Prop :=
  id.index < s.nodes.size

/-- The scope has been entered. -/
def KnowsScope (s : State) (scope : ScopeId) : Prop :=
  scope.index < s.scopes.size

/-- The node has been added and is no identifier. -/
def Holds (s : State) (id : NodeId) : Prop :=
  ∃ n, s.nodes[id.index]? = some n ∧ n.kind.isIdentifier = false

theorem Holds.knows {s : State} {id : NodeId} (held : s.Holds id) : s.Knows id :=
  have ⟨_, found, _⟩ := held
  (Array.getElem?_eq_some_iff.mp found).choose

/-- The kind is none of an identifier, no edit has changed it, all nodes and scopes in it are known, and
all its offsets are those of places. -/
structure Admits (origin : Cursor) (s : State) (kind : NodeKind) : Prop where
  plain : kind.isIdentifier = false
  untouched : kind.isUntouched = true
  named : ∀ id ∈ kind.named, s.Knows id
  body : ∀ scope, kind.bodyScope? = some scope → s.KnowsScope scope
  placed : kind.Placed origin

/-- Nothing but the place, the counters and the flags differs. -/
structure SameTree (s t : State) : Prop where
  nodes : t.nodes = s.nodes
  scopes : t.scopes = s.scopes
  references : t.references = s.references
  opened : t.opened = s.opened
  scope : t.scope = s.scope

/-- No node reaches beyond an offset. -/
def Clear (s : State) (edge : Nat) : Prop :=
  ∀ (i : Nat) (n : Node), s.nodes[i]? = some n → n.span.stop ≤ edge

/-- The tokens behind all imports begin before an offset. -/
def Spaced (origin : Cursor) (s : State) (edge : Nat) : Prop :=
  ∀ (i : Nat) (n : Node), s.nodes[i]? = some n → n.kind.isImport = true →
    ∀ place, origin.Passes place → place.offset = n.span.stop → gapEnd place ≤ edge

/-- A node may be added that begins at an offset. Only the first node is not inside another. -/
structure HasRoom (origin : Cursor) (s : State) (start : Nat) : Prop where
  rooted : s.opened = [] → s.nodes.size = 0
  marks : origin.Marks start
  clear : s.Clear start
  spaced : s.Spaced origin start

/-- A token of the text that names something, where all other nodes have ended. -/
structure Takes (origin : Cursor) (s : State) (token : Token) : Prop where
  identifier : token.kind = .identifier
  covers : token.Covers
  reaches : origin.Reaches token.first
  room : s.HasRoom origin token.start

/-- A scope lies within the scope around the innermost of some open nodes. -/
def Inside (s : State) (opened : List NodeId) (scope : ScopeId) : Prop :=
  ∀ id n, opened.head? = some id → s.nodes[id.index]? = some n → s.scopes.isWithin scope n.scope = true

/-- The current scope is the one around the innermost open node. -/
def Level (s : State) : Prop :=
  ∀ id n, s.opened.head? = some id → s.nodes[id.index]? = some n → n.scope = s.scope

/-- The innermost open node, which is no identifier, may end at an offset: no other reaches beyond it, and it
holds at least one character unless it begins at the end of the text. -/
structure MayEnd (origin : Cursor) (s : State) (id : NodeId) (stop : Nat) : Prop where
  innermost : s.opened.head? = some id
  held : s.Holds id
  marks : origin.Marks stop
  clear : s.Clear stop
  covers : ∀ n, s.nodes[id.index]? = some n → n.span.start < stop ∨ n.span.start = origin.ends

/-- Braces have been read between two offsets. The names in them end where their specifiers do, and no node
reaches into them if they are empty. -/
structure ReadsNames (s : State) (start stop : Nat) (named : NamedImports) : Prop where
  opening : start ≤ named.opening
  closing : named.closing < stop
  specifiers : ∀ specifier ∈ named.specifiers, EndsName s.nodes specifier.localNode specifier.span.stop
  empty : named.specifiers = [] → s.Clear named.opening

/-- The node `id` is an import that has been read up to an offset, which parts no line ending. Nothing but names
has been added in it. Directly in the module it has declared them there. -/
structure ReadsImport (origin : Cursor) (s : State) (id : NodeId) (node : ImportNode) (stop : Nat) : Prop where
  splits : origin.SplitsAt stop
  names : ∀ (i : Nat) (n : Node), s.nodes[i]? = some n → id.index < i →
    n.kind.isIdentifier = true ∧ n.parent = some id
  defaultName : ∀ name ∈ node.defaultName, ∃ end', EndsName s.nodes name end'
  named : ∀ named ∈ node.named, ∀ n, s.nodes[id.index]? = some n → s.ReadsNames n.span.start stop named
  declared : ∀ n, s.nodes[id.index]? = some n → n.parent = some Tree.root →
    ∀ name ∈ node.localNodes, DeclaresIn s.nodes Tree.moduleScope name

end State

/-- One change of the tree that is being built from the text behind a place. -/
inductive Step (origin : Cursor) : State → State → Prop
  | read {s t : State} (same : s.SameTree t) : Step origin s t
  | openNode {s : State} (kind : NodeKind) (start : Nat) (ordinary : kind.isImport = false)
      (bodiless : kind.body? = none) (admitted : s.Admits origin kind) (room : s.HasRoom origin start) :
      Step origin s (s.openNode kind start)
  | closeNode {s : State} (id : NodeId) (stop : Nat) (mayEnd : s.MayEnd origin id stop) :
      Step origin s (s.closeNodeAt id stop)
  | setKind {s : State} (id : NodeId) (kind : NodeKind) (held : s.Holds id) (ordinary : kind.isImport = false)
      (bodies : ∀ body ∈ kind.body?, body.Fits origin s.nodes id) (admitted : s.Admits origin kind) :
      Step origin s (s.setKind id kind)
  /-- A node turns out to be an import when it ends. -/
  | closeImport {s : State} (id : NodeId) (node : ImportNode) (stop : Nat)
      (admitted : s.Admits origin (.importDeclaration node)) (reads : s.ReadsImport origin id node stop)
      (begins : ∀ n, s.nodes[id.index]? = some n → n.span.start < origin.ends)
      (once : id ∉ s.opened.tail) (mayEnd : s.MayEnd origin id stop) :
      Step origin s ((s.setKind id (.importDeclaration node)).closeNodeAt id stop)
  | refer {s : State} (token : Token) (taken : s.Takes origin token) : Step origin s (s.refer token)
  | bind {s : State} (token : Token) (site : BindingSite) (taken : s.Takes origin token)
      (level : site.kind = .var → s.Level) : Step origin s (s.bind token site)
  | enterScope {s : State} (kind : ScopeKind) : Step origin s (s.enterScope kind)
  | leaveScope {s : State} (scope : ScopeId) (known : s.KnowsScope scope)
      (inside : s.Inside s.opened scope) : Step origin s { s with scope }

/-- Any number of changes. -/
abbrev Steps (origin : Cursor) : State → State → Prop :=
  Relation.ReflTransGen (Step origin)

variable {origin : Cursor} {s t u : State}

theorem Steps.trans (first : Steps origin s t) (second : Steps origin t u) : Steps origin s u :=
  Relation.ReflTransGen.trans first second

/-! ### What steps keep -/

namespace State

/-- Every node is kept. -/
def NodesKept (s t : State) : Prop :=
  ∀ (i : Nat) (n : Node), s.nodes[i]? = some n → ∃ m, t.nodes[i]? = some m ∧ n.IsKept m

theorem nodesKept_of_eq (same : t.nodes = s.nodes) : NodesKept s t :=
  fun _ n found => ⟨n, by rw [same, found], .refl n⟩

theorem NodesKept.trans (first : NodesKept s t) (second : NodesKept t u) : NodesKept s u := by
  intro i n found
  obtain ⟨m, found', kept⟩ := first i n found
  obtain ⟨k, found'', kept'⟩ := second i m found'
  exact ⟨k, found'', kept.trans kept'⟩

theorem nodesKept_addNode (s : State) (kind : NodeKind) (span : Span) (scope : ScopeId) :
    NodesKept s (s.addNode kind span scope) := by
  intro i n found
  have old : i ≠ s.nodes.size := by
    rintro rfl
    simp at found
  rw [addNode, getElem?_appendNode, if_neg old, found]
  split
  · exact ⟨_, rfl, Node.Resembles.isKept ⟨rfl, rfl, rfl, rfl⟩⟩
  · exact ⟨n, rfl, .refl n⟩

/-- A node keeps its place when it is closed behind all others. -/
theorem nodesKept_closeNodeAt {id : NodeId} {stop : Nat} (held : s.Holds id) (clear : s.Clear stop) :
    NodesKept s (s.closeNodeAt id stop) := by
  intro i n found
  obtain ⟨m, found', plain⟩ := held
  simp only [closeNodeAt, Array.getElem?_modify, found]
  split
  · rename_i here
    rw [here, found, Option.some.injEq] at found'
    rw [← found'] at plain
    refine ⟨_, rfl, rfl, fun _ => rfl, fun identifier => ?_, rfl, rfl, rfl, ?_⟩
    · exact absurd (plain.symm.trans identifier) Bool.false_ne_true
    · exact Nat.le_trans (clear i n found) (Nat.le_max_left ..)
  · exact ⟨n, rfl, .refl n⟩

theorem nodesKept_setKind {id : NodeId} {kind : NodeKind} (held : s.Holds id)
    (plain : kind.isIdentifier = false) : NodesKept s (s.setKind id kind) := by
  intro i n found
  obtain ⟨m, found', plain'⟩ := held
  simp only [setKind, Array.getElem?_modify, found]
  split
  · rename_i here
    rw [here, found, Option.some.injEq] at found'
    rw [← found'] at plain'
    refine ⟨_, rfl, plain.trans plain'.symm, fun identifier => ?_, fun _ => rfl, rfl, rfl, rfl, Nat.le_refl _⟩
    exact absurd (plain'.symm.trans identifier) Bool.false_ne_true
  · exact ⟨n, rfl, .refl n⟩

theorem holds_setKind {id : NodeId} {kind : NodeKind} (held : s.Holds id) (plain : kind.isIdentifier = false) :
    (s.setKind id kind).Holds id := by
  obtain ⟨n, found, -⟩ := held
  refine ⟨{ n with kind }, ?_, plain⟩
  rw [setKind, Array.getElem?_modify, if_pos rfl, found, Option.map_some]

theorem nodes_setKind (s : State) (id : NodeId) (kind : NodeKind) :
    (s.setKind id kind).nodes = s.nodes.modify id.index fun n => { n with kind } :=
  rfl

theorem nodes_closeNodeAt (s : State) (id : NodeId) (stop : Nat) :
    (s.closeNodeAt id stop).nodes =
      s.nodes.modify id.index fun n => { n with span := { n.span with stop := max stop n.span.start } } :=
  rfl

/-- No node reaches further when one is changed. -/
theorem Clear.modify {edge k : Nat} {change : Node → Node} (clear : s.Clear edge)
    (nodes : t.nodes = s.nodes.modify k change)
    (ends : ∀ n, s.nodes[k]? = some n → (change n).span.stop ≤ edge) : t.Clear edge := by
  intro i n found
  rw [nodes] at found
  obtain ⟨m, old, ⟨rfl, rfl⟩ | ⟨-, rfl⟩⟩ := modify_cases found
  · exact ends m old
  · exact clear i n old

theorem Clear.setKind {edge : Nat} (clear : s.Clear edge) (id : NodeId) (kind : NodeKind) :
    (s.setKind id kind).Clear edge :=
  clear.modify (s.nodes_setKind id kind) (clear id.index)

end State

theorem Step.nodesKept (step : Step origin s t) : s.NodesKept t := by
  cases step with
  | read same => exact State.nodesKept_of_eq same.nodes
  | openNode kind start => exact (s.nodesKept_addNode kind _ _).trans (State.nodesKept_of_eq rfl)
  | closeNode id stop mayEnd => exact State.nodesKept_closeNodeAt mayEnd.held mayEnd.clear
  | setKind id kind held _ _ admitted => exact State.nodesKept_setKind held admitted.plain
  | closeImport id node stop admitted reads begins once mayEnd =>
      have held := State.holds_setKind mayEnd.held admitted.plain
      have clear := mayEnd.clear.setKind id (.importDeclaration node)
      exact (State.nodesKept_setKind mayEnd.held admitted.plain).trans (State.nodesKept_closeNodeAt held clear)
  | refer token => exact (s.nodesKept_addNode _ _ _).trans (State.nodesKept_of_eq rfl)
  | bind token site => exact (s.nodesKept_addNode _ _ _).trans (State.nodesKept_of_eq rfl)
  | enterScope kind => exact State.nodesKept_of_eq rfl
  | leaveScope scope => exact State.nodesKept_of_eq rfl

theorem Steps.nodesKept (steps : Steps origin s t) : s.NodesKept t := by
  induction steps with
  | refl => exact State.nodesKept_of_eq rfl
  | tail _ step ih => exact ih.trans step.nodesKept

/-- A node behind a step has been kept, or it has been added where all others had ended. -/
theorem Step.kept_or_room (step : Step origin s t) {i : Nat} {n : Node} (found : t.nodes[i]? = some n) :
    (∃ m, s.nodes[i]? = some m ∧ m.IsKept n) ∨ s.HasRoom origin n.span.start := by
  cases old : s.nodes[i]? with
  | some m =>
      obtain ⟨k, found', kept⟩ := step.nodesKept i m old
      obtain rfl := Option.some.inj (found.symm.trans found')
      exact .inl ⟨m, rfl, kept⟩
  | none =>
      right
      have unknown {m : Node} (here : s.nodes[i]? = some m) : s.HasRoom origin n.span.start := by
        rw [old] at here
        cases here
      cases step with
      | read same => exact unknown (same.nodes ▸ found)
      | openNode kind start _ _ _ room =>
          rcases appendNode_cases found with ⟨-, new⟩ | ⟨-, m, here, -⟩
          · exact new.span ▸ room
          · exact unknown here
      | closeNode id stop =>
          obtain ⟨m, here, -⟩ := modify_cases found
          exact unknown here
      | setKind id kind =>
          obtain ⟨m, here, -⟩ := modify_cases found
          exact unknown here
      | closeImport id node stop =>
          obtain ⟨m, between, -⟩ := modify_cases found
          obtain ⟨k, here, -⟩ := modify_cases between
          exact unknown here
      | refer token taken =>
          rcases appendNode_cases found with ⟨-, new⟩ | ⟨-, m, here, -⟩
          · exact new.span ▸ taken.room
          · exact unknown here
      | bind token site taken =>
          rcases appendNode_cases found with ⟨-, new⟩ | ⟨-, m, here, -⟩
          · exact new.span ▸ taken.room
          · exact unknown here
      | enterScope kind => exact unknown found
      | leaveScope scope => exact unknown found

/-- What has been added begins at a place behind the origin. -/
theorem Steps.kept_or_marks (steps : Steps origin s t) {i : Nat} {n : Node} (found : t.nodes[i]? = some n) :
    (∃ m, s.nodes[i]? = some m ∧ m.IsKept n) ∨ origin.Marks n.span.start := by
  induction steps generalizing n with
  | refl => exact .inl ⟨n, found, .refl n⟩
  | tail _ step ih =>
      rcases step.kept_or_room found with ⟨m, between, kept⟩ | room
      · rcases ih between with ⟨k, old, kept'⟩ | marks
        · exact .inl ⟨k, old, kept'.trans kept⟩
        · exact .inr (kept.start ▸ marks)
      · exact .inr room.marks

/-- A node that is not open has its ends. -/
theorem Step.closed (step : Step origin s t) {i : Nat} {n : Node} (found : s.nodes[i]? = some n)
    (closed : ⟨i⟩ ∉ s.opened) : ⟨i⟩ ∉ t.opened ∧ ∃ m, t.nodes[i]? = some m ∧ m.span = n.span := by
  have known : i < s.nodes.size := (Array.getElem?_eq_some_iff.mp found).choose
  obtain ⟨m, found', kept⟩ := step.nodesKept i n found
  cases step with
  | read same => exact ⟨same.opened ▸ closed, n, same.nodes ▸ found, rfl⟩
  | openNode kind start =>
      refine ⟨fun here => ?_, m, found', ?_⟩
      · rcases List.mem_cons.mp here with new | old
        · exact Nat.ne_of_lt known (congrArg NodeId.index new)
        · exact closed old
      · rcases appendNode_cases found' with ⟨new, -⟩ | ⟨-, k, old, same⟩
        · exact absurd new (Nat.ne_of_lt known)
        · rw [same.span, Option.some.inj (old.symm.trans found)]
  | closeNode id stop mayEnd =>
      refine ⟨fun here => closed ((List.dropWhile_sublist _).subset (List.mem_of_mem_drop here)), m, found', ?_⟩
      obtain ⟨k, old, ⟨rfl, -⟩ | ⟨-, rfl⟩⟩ := modify_cases found'
      · exact absurd (List.mem_of_head? mayEnd.innermost) closed
      · rw [Option.some.inj (old.symm.trans found)]
  | setKind id kind =>
      refine ⟨closed, m, found', ?_⟩
      obtain ⟨k, old, ⟨-, rfl⟩ | ⟨-, rfl⟩⟩ := modify_cases found'
      · rw [Option.some.inj (old.symm.trans found)]
      · rw [Option.some.inj (old.symm.trans found)]
  | closeImport id node stop admitted reads begins once mayEnd =>
      refine ⟨fun here => closed ((List.dropWhile_sublist _).subset (List.mem_of_mem_drop here)), m, found', ?_⟩
      obtain ⟨k, between, ⟨rfl, -⟩ | ⟨other, rfl⟩⟩ := modify_cases found'
      · exact absurd (List.mem_of_head? mayEnd.innermost) closed
      · obtain ⟨k, old, ⟨is, -⟩ | ⟨-, rfl⟩⟩ := modify_cases between
        · exact absurd is other
        · rw [Option.some.inj (old.symm.trans found)]
  | refer token =>
      refine ⟨closed, m, found', ?_⟩
      rcases appendNode_cases found' with ⟨new, -⟩ | ⟨-, k, old, same⟩
      · exact absurd new (Nat.ne_of_lt known)
      · rw [same.span, Option.some.inj (old.symm.trans found)]
  | bind token site =>
      refine ⟨closed, m, found', ?_⟩
      rcases appendNode_cases found' with ⟨new, -⟩ | ⟨-, k, old, same⟩
      · exact absurd new (Nat.ne_of_lt known)
      · rw [same.span, Option.some.inj (old.symm.trans found)]
  | enterScope kind => exact ⟨closed, n, found, rfl⟩
  | leaveScope scope => exact ⟨closed, n, found, rfl⟩

theorem Steps.closed (steps : Steps origin s t) {i : Nat} {n : Node} (found : s.nodes[i]? = some n)
    (closed : ⟨i⟩ ∉ s.opened) : ⟨i⟩ ∉ t.opened ∧ ∃ m, t.nodes[i]? = some m ∧ m.span = n.span := by
  induction steps with
  | refl => exact ⟨closed, n, found, rfl⟩
  | tail _ step ih =>
      obtain ⟨closed', m, found', same⟩ := ih
      obtain ⟨closed'', k, found'', same'⟩ := step.closed found' closed'
      exact ⟨closed'', k, found'', same'.trans same⟩

/-! ### Gaps -/

/-- What is added begins behind the node that takes in the gap. -/
theorem Step.freeGapIn (step : Step origin s t) {id : NodeId} {place : Cursor}
    (gap : FreeGapIn origin s.nodes id place) : FreeGapIn origin t.nodes id place := by
  obtain ⟨k, taking, here, parent, brackets⟩ := gap.taken
  have behind {m : Node} (room : s.HasRoom origin m.span.start) : gapEnd place ≤ m.span.start :=
    Nat.le_trans (Nat.le_of_lt brackets.stop) (room.clear k taking here)
  refine ⟨fun i n found identifier => ?_, ?_⟩
  · rcases step.kept_or_room found with ⟨m, old, kept⟩ | room
    · have before := kept.isIdentifier.symm.trans identifier
      rw [kept.span before]
      exact gap.free i m old before
    · exact .inr (behind room)
  · obtain ⟨m, found, kept⟩ := step.nodesKept k taking here
    exact ⟨k, m, found, kept.parent.trans parent, {
      start := kept.start ▸ brackets.start
      stop := Nat.lt_of_lt_of_le brackets.stop kept.stop
      opens := kept.start ▸ brackets.opens
      later := fun j m' found' after opens => by
        rcases step.kept_or_room found' with ⟨old, there, kept'⟩ | room
        · rw [kept'.start] at opens ⊢
          exact brackets.later j old there after opens
        · exact behind room }⟩

theorem Step.fits (step : Step origin s t) {id : NodeId} {body : FunctionBody} (fits : body.Fits origin s.nodes id) :
    body.Fits origin t.nodes id := by
  obtain ⟨place, passes, splits, anchor, first, gap⟩ := fits
  exact ⟨place, passes, splits, anchor, first, step.freeGapIn gap⟩

/-! ### Open nodes -/

/-- No open node is an import. -/
def State.Ordinary (s : State) : Prop :=
  ∀ id ∈ s.opened, ∀ n, s.nodes[id.index]? = some n → n.kind.isImport = false

theorem Step.ordinary (step : Step origin s t) (ordinary : s.Ordinary) : t.Ordinary := by
  cases step with
  | read same =>
      intro id here n found
      exact ordinary id (same.opened ▸ here) n (same.nodes ▸ found)
  | openNode kind start plain =>
      intro id here n found
      rcases appendNode_cases found with ⟨-, new⟩ | ⟨known, m, old, same⟩
      · rw [new.kind]
        exact plain
      · rw [same.kind]
        rcases List.mem_cons.mp here with rfl | before
        · exact absurd known (Nat.lt_irrefl _)
        · exact ordinary id before m old
  | closeNode id stop =>
      intro other here n found
      have before := (List.dropWhile_sublist _).subset (List.mem_of_mem_drop here)
      obtain ⟨m, old, ⟨-, rfl⟩ | ⟨-, rfl⟩⟩ := modify_cases found
      · exact ordinary other before m old
      · exact ordinary other before n old
  | setKind id kind held plain =>
      intro other here n found
      obtain ⟨m, old, ⟨-, rfl⟩ | ⟨-, rfl⟩⟩ := modify_cases found
      · exact plain
      · exact ordinary other here n old
  | closeImport id node stop admitted reads begins once mayEnd =>
      intro other here n found
      obtain ⟨rest, opened⟩ := List.head?_eq_some_iff.mp mayEnd.innermost
      have inRest : other ∈ rest := by
        simpa [State.closeNodeAt, State.setKind, opened] using here
      have others : other.index ≠ id.index := by
        intro same
        obtain rfl : other = id := congrArg NodeId.mk same
        rw [opened] at once
        exact once inRest
      obtain ⟨m, between, ⟨is, -⟩ | ⟨-, rfl⟩⟩ := modify_cases found
      · exact absurd is others
      · obtain ⟨m, old, ⟨is, -⟩ | ⟨-, rfl⟩⟩ := modify_cases between
        · exact absurd is others
        · exact ordinary other (opened ▸ List.mem_cons_of_mem _ inRest) n old
  | refer token =>
      intro id here n found
      rcases appendNode_cases found with ⟨-, new⟩ | ⟨-, m, old, same⟩
      · rw [new.kind]
        rfl
      · rw [same.kind]
        exact ordinary id here m old
  | bind token site =>
      intro id here n found
      rcases appendNode_cases found with ⟨-, new⟩ | ⟨-, m, old, same⟩
      · rw [new.kind]
        rfl
      · rw [same.kind]
        exact ordinary id here m old
  | enterScope kind => exact ordinary
  | leaveScope scope => exact ordinary

theorem Steps.ordinary (steps : Steps origin s t) (ordinary : s.Ordinary) : t.Ordinary := by
  induction steps with
  | refl => exact ordinary
  | tail _ step ih => exact step.ordinary ih

theorem Step.size_scopes_le (step : Step origin s t) : s.scopes.size ≤ t.scopes.size := by
  cases step with
  | read same => exact Nat.le_of_eq (by rw [same.scopes])
  | enterScope kind => simp [State.enterScope, ScopeForest.add, ScopeForest.modify, ScopeForest.size]
  | bind token site => exact (s.scopes.extends_declare _ _ _).size_le
  | _ => exact Nat.le_refl _

theorem Steps.size_scopes_le (steps : Steps origin s t) : s.scopes.size ≤ t.scopes.size := by
  induction steps with
  | refl => exact Nat.le_refl _
  | tail _ step ih => exact Nat.le_trans ih step.size_scopes_le

/-- The current scope is always one of the forest, which grows. -/
theorem Step.extends (step : Step origin s t) (known : s.KnowsScope s.scope) :
    s.scopes.Extends t.scopes ∧ t.KnowsScope t.scope := by
  cases step with
  | read same =>
      rw [State.KnowsScope, same.scopes, same.scope]
      exact ⟨.refl _, known⟩
  | enterScope kind =>
      have grows := s.scopes.extends_add kind known
      refine ⟨grows, ?_⟩
      simp [State.KnowsScope, State.enterScope, ScopeForest.add, ScopeForest.modify, ScopeForest.size]
  | bind token site =>
      have grows := s.scopes.extends_declare (if site.kind = .var then s.scopes.varScope s.scope else s.scope)
        (identifierName token) ⟨s.nodes.size⟩
      exact ⟨grows, Nat.lt_of_lt_of_le known grows.size_le⟩
  | leaveScope scope known' => exact ⟨.refl _, known'⟩
  | _ => exact ⟨.refl _, known⟩

theorem Steps.extends (steps : Steps origin s t) (known : s.KnowsScope s.scope) :
    s.scopes.Extends t.scopes ∧ t.KnowsScope t.scope := by
  induction steps with
  | refl => exact ⟨.refl _, known⟩
  | tail _ step ih =>
      obtain ⟨grows, known'⟩ := ih
      exact ⟨grows.trans (step.extends known').1, (step.extends known').2⟩

theorem Step.forest (step : Step origin s t) (known : s.KnowsScope s.scope)
    (forest : s.scopes.WellFormed) : t.scopes.WellFormed := by
  cases step with
  | read same => rwa [same.scopes]
  | enterScope kind => exact forest.add kind known
  | bind token site => exact forest.of_sameShape (ScopeForest.sameShape_declare ..)
  | _ => exact forest

theorem Steps.forest (steps : Steps origin s t) (known : s.KnowsScope s.scope)
    (forest : s.scopes.WellFormed) : t.scopes.WellFormed := by
  induction steps with
  | refl => exact forest
  | tail steps step ih => exact step.forest (Steps.extends steps known).2 ih

/-- A name ends where it ended. -/
theorem State.NodesKept.endsName {id : NodeId} {stop : Nat} (kept : s.NodesKept t) (ends : EndsName s.nodes id stop) :
    EndsName t.nodes id stop := by
  obtain ⟨n, found, identifier, here⟩ := ends
  obtain ⟨m, found', same⟩ := kept id.index n found
  exact ⟨m, found', same.isIdentifier.trans identifier, same.span identifier ▸ here⟩

/-- A name that is declared stays where it is declared. -/
theorem State.NodesKept.declaresIn {id : NodeId} {scope : ScopeId} (kept : s.NodesKept t)
    (declares : DeclaresIn s.nodes scope id) : DeclaresIn t.nodes scope id := by
  obtain ⟨n, i, site, found, kind, role, inScope⟩ := declares
  obtain ⟨m, found', same⟩ := kept id.index n found
  refine ⟨m, i, site, found', ?_, role, same.scope.trans inScope⟩
  rw [same.kind (by rw [kind]; rfl), kind]

theorem State.knows_of_endsName {id : NodeId} {stop : Nat} (ends : EndsName s.nodes id stop) : s.Knows id :=
  have ⟨_, found, _⟩ := ends
  (Array.getElem?_eq_some_iff.mp found).choose

section Known

variable (steps : Steps origin s t)
include steps

theorem Steps.knows {id : NodeId} (known : s.Knows id) : t.Knows id := by
  obtain ⟨m, found, -⟩ := steps.nodesKept id.index _ (Array.getElem?_eq_getElem known)
  exact (Array.getElem?_eq_some_iff.mp found).choose

theorem Steps.knowsScope {scope : ScopeId} (known : s.KnowsScope scope) : t.KnowsScope scope :=
  Nat.lt_of_lt_of_le known steps.size_scopes_le

theorem Steps.holds {id : NodeId} (held : s.Holds id) : t.Holds id := by
  obtain ⟨n, found, plain⟩ := held
  obtain ⟨m, found', kept⟩ := steps.nodesKept id.index n found
  exact ⟨m, found', kept.isIdentifier.trans plain⟩

/-- What lies within the scope around a node does so still. -/
theorem Steps.inside (forest : s.scopes.WellFormed) (current : s.KnowsScope s.scope) {opened : List NodeId}
    (known : ∀ id ∈ opened, s.Knows id) {scope : ScopeId} (knownScope : s.KnowsScope scope)
    (inside : s.Inside opened scope) : t.Inside opened scope := by
  intro id m innermost found
  have old := Array.getElem?_eq_getElem (known id (List.mem_of_head? innermost))
  obtain ⟨m', found', kept⟩ := steps.nodesKept id.index _ old
  rw [found, Option.some.injEq] at found'
  rw [(steps.extends current).1.isWithin_eq forest knownScope, found', kept.scope]
  exact inside id _ innermost old

end Known

end Grammar

end BindingRepair.Script
