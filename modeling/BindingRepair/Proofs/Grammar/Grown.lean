/-
# What holds while a tree grows

A step gains a node where all others have ended, or it keeps the nodes there are. So at every moment the
nodes lie in the text as they lie in the tree, the scope around a node lies in the one around its parent,
an identifier has the name that its text spells, and the references are listed in the order of the text.
-/

import BindingRepair.Proofs.Grammar.Layout
import BindingRepair.Proofs.Grammar.Parsed

namespace BindingRepair.Script

open Text

/-- The identifier is in the text, where it parts no line ending, and its name is what stands there, with the
escapes decoded. -/
def IdentifierNode.Spells (origin : Cursor) (i : IdentifierNode) (span : Span) : Prop :=
  ∃ first last : Cursor, origin.Reaches first ∧ first.Passes last ∧ first.Splits last ∧
    span = ⟨first.offset, last.offset⟩ ∧ i.name = String.ofList (Grammar.decodeEscapes none (first.charsTo last)) ∧ i.synthesized = false

theorem IdentifierNode.Spells.nonempty {origin : Cursor} {i : IdentifierNode} {span : Span}
    (spells : i.Spells origin span) : span.start < span.stop := by
  obtain ⟨first, last, -, passes, -, rfl, -⟩ := spells
  exact passes.offset_lt

/-- A `var` declares the node. -/
def Node.IsVar (n : Node) : Prop :=
  ∃ i site, n.kind = .identifier i ∧ i.role = .binding site ∧ site.kind = .var

theorem Node.not_isVar {n : Node} (plain : n.kind.isIdentifier = false) : ¬n.IsVar := by
  rintro ⟨i, site, kind, -⟩
  rw [kind] at plain
  cases plain

/-- The scope of a node lies in the one around it, or is the one that `var` declarations in it belong to. -/
structure Node.NestsIn (n : Node) (scopes : ScopeForest) (outer : ScopeId) : Prop where
  inside : ¬n.IsVar → scopes.isWithin n.scope outer = true
  hoisted : n.IsVar → n.scope = scopes.varScope outer

theorem Node.NestsIn.congr {n m : Node} {scopes : ScopeForest} {outer : ScopeId}
    (nests : n.NestsIn scopes outer) (isVar : m.IsVar ↔ n.IsVar) (scope : m.scope = n.scope) :
    m.NestsIn scopes outer where
  inside other := scope ▸ nests.inside fun is => other (isVar.mpr is)
  hoisted is := scope ▸ nests.hoisted (isVar.mp is)

theorem Node.NestsIn.extends {n : Node} {f g : ScopeForest} {outer : ScopeId} (nests : n.NestsIn f outer)
    (grows : f.Extends g) (wellFormed : f.WellFormed) (known : n.scope.index < f.size)
    (knownOuter : outer.index < f.size) : n.NestsIn g outer where
  inside other := by
    rw [grows.isWithin_eq wellFormed known]
    exact nests.inside other
  hoisted is := by
    rw [grows.varScope_eq wellFormed knownOuter]
    exact nests.hoisted is

namespace Grammar

variable {origin : Cursor} {s t : State}

/-! ### The nodes behind a step -/

namespace State

/-- A node by which a state differs from the one before. -/
structure Gains (origin : Cursor) (s t : State) (n : Node) : Prop where
  parent : n.parent = s.opened.head?
  room : s.HasRoom origin n.span.start
  scope : ¬n.IsVar → n.scope = s.scope
  hoisted : n.IsVar → s.Level ∧ n.scope = s.scopes.varScope s.scope
  spells : ∀ i, n.kind = .identifier i → i.Spells origin n.span
  listed : ∀ i, n.kind = .identifier i → i.role = .reference → ⟨s.nodes.size⟩ ∈ t.references
  placed : n.kind.Placed origin
  ordinary : n.kind.isImport = false
  bodiless : n.kind.body? = none

/-- The node `i` turns into one of another kind. -/
structure Turns (origin : Cursor) (s t : State) (i : Nat) (m : Node) : Prop where
  admitted : s.Admits origin m.kind
  bodies : ∀ body ∈ m.kind.body?, body.Fits origin s.nodes ⟨i⟩
  imports : ∀ node, m.kind = .importDeclaration node → node.Fits origin t.nodes i m.span

/-- The node `i` has been kept from the state before: an identifier as it is, another perhaps with another
kind. -/
structure Retains (origin : Cursor) (s t : State) (i : Nat) (n m : Node) : Prop where
  kept : n.IsKept m
  kind : m.kind = n.kind ∨ s.Turns origin t i m

variable {i : Nat} {n m : Node}

theorem Retains.of_resembles (same : m.Resembles n) : s.Retains origin t i n m :=
  ⟨same.isKept, .inl same.kind⟩

/-- All that has been added after an import that ends now are its names. -/
theorem ReadsImport.fits {id : NodeId} {node : ImportNode} {stop : Nat} (reads : s.ReadsImport origin id node stop)
    (found : s.nodes[id.index]? = some n) (begins : n.span.start < origin.ends) (kept : s.NodesKept t)
    (same : t.nodes.size = s.nodes.size) : node.Fits origin t.nodes id.index ⟨n.span.start, stop⟩ := by
  have before {j : Nat} {m : Node} (here : t.nodes[j]? = some m) : ∃ k, s.nodes[j]? = some k ∧ k.IsKept m := by
    have known := same ▸ (Array.getElem?_eq_some_iff.mp here).choose
    obtain ⟨m', here', kept'⟩ := kept j _ (Array.getElem?_eq_getElem known)
    exact ⟨_, Array.getElem?_eq_getElem known, Option.some.inj (here'.symm.trans here) ▸ kept'⟩
  refine ⟨begins, reads.splits, fun j m here later => ?_, fun name here => ?_, fun named here => ?_,
    fun m here top name declared => ?_⟩
  · obtain ⟨k, old, kept'⟩ := before here
    obtain ⟨identifier, parent⟩ := reads.names j k old later
    exact .inl ⟨kept'.isIdentifier.trans identifier, kept'.parent.trans parent⟩
  · obtain ⟨stop, ends⟩ := reads.defaultName name here
    exact ⟨stop, kept.endsName ends⟩
  · have braces := reads.named named here n found
    refine ⟨braces.opening, braces.closing, ?_, fun isEmpty j m here identifier => ?_⟩
    · exact fun specifier inBraces => kept.endsName (braces.specifiers specifier inBraces)
    · obtain ⟨k, old, kept'⟩ := before here
      rw [kept'.span (kept'.isIdentifier.symm.trans identifier)]
      exact .inl (braces.empty isEmpty j k old)
  · obtain ⟨k, old, kept'⟩ := before here
    exact kept.declaresIn (reads.declared k old (kept'.parent.symm.trans top) name declared)

theorem Retains.identifier (retains : s.Retains origin t i n m) {k : IdentifierNode}
    (kind : m.kind = .identifier k) : n.kind = .identifier k := by
  have plain : n.kind.isIdentifier = true := by
    rw [← retains.kept.isIdentifier, kind]
    rfl
  rw [← retains.kept.kind plain, kind]

theorem Retains.identifier_iff (retains : s.Retains origin t i n m) {k : IdentifierNode} :
    m.kind = .identifier k ↔ n.kind = .identifier k := by
  constructor
  · exact retains.identifier
  · intro kind
    rw [retains.kept.kind (by rw [kind]; rfl), kind]

theorem Retains.isVar_iff (retains : s.Retains origin t i n m) : m.IsVar ↔ n.IsVar := by
  unfold Node.IsVar
  simp only [retains.identifier_iff]

/-- What can be said of a node that a token gives. -/
theorem Takes.spells {token : Token} (taken : s.Takes origin token) (role : IdentifierRole) :
    IdentifierNode.Spells origin { name := identifierName token, role } token.span := by
  have passes := taken.covers.fills.passes (taken.covers.named taken.identifier)
  have splits := taken.covers.splits (taken.identifier ▸ TokenKind.noConfusion)
  exact ⟨_, _, taken.reaches, passes, splits, rfl, taken.covers.identifierName_eq taken.identifier, rfl⟩

theorem Takes.on {token : Token} (taken : s.Takes origin token) : token.span.On origin where
  start := taken.reaches.marks
  stop := (taken.reaches.trans taken.covers.fills.reaches).marks
  ordered := taken.covers.fills.reaches.offset_le

theorem Takes.nonempty {token : Token} (taken : s.Takes origin token) : token.span.start < token.span.stop :=
  (taken.spells .reference).nonempty

/-- Nothing but the last node of a state is new. -/
theorem retains_of_addNode {kind : NodeKind} {span : Span} {scope : ScopeId}
    (added : ∀ n : Node, n.Resembles ⟨kind, span, scope, s.opened.head?, #[]⟩ → s.Gains origin t n)
    (found : (s.addNode kind span scope).nodes[i]? = some n) :
    i = s.nodes.size ∧ s.Gains origin t n ∨ ∃ m, s.nodes[i]? = some m ∧ s.Retains origin t i m n := by
  rcases appendNode_cases found with ⟨last, new⟩ | ⟨-, m, old, same⟩
  · exact .inl ⟨last, added n new⟩
  · exact .inr ⟨m, old, .of_resembles same⟩

/-- An opened node stands where all others have ended, in the current scope. -/
theorem gains_openNode {kind : NodeKind} {start : Nat} (ordinary : kind.isImport = false)
    (bodiless : kind.body? = none) (admitted : s.Admits origin kind) (room : s.HasRoom origin start)
    (new : n.Resembles ⟨kind, Span.emptyAt start, s.scope, s.opened.head?, #[]⟩) : s.Gains origin t n := by
  have plain : n.kind.isIdentifier = false := by
    rw [new.kind]
    exact admitted.plain
  exact {
    parent := new.parent
    room := new.span ▸ room
    scope := fun _ => new.scope
    hoisted := fun is => absurd is (Node.not_isVar plain)
    spells := fun i kind => by
      rw [kind] at plain
      cases plain
    listed := fun i kind => by
      rw [kind] at plain
      cases plain
    placed := new.kind ▸ admitted.placed
    ordinary := new.kind ▸ ordinary
    bodiless := new.kind ▸ bodiless }

/-- A reference is listed, and spells its name. -/
theorem gains_refer {token : Token} (taken : s.Takes origin token)
    (new : n.Resembles ⟨.identifier { name := identifierName token, role := .reference }, token.span, s.scope,
      s.opened.head?, #[]⟩) : s.Gains origin (s.refer token) n where
  parent := new.parent
  room := new.span ▸ taken.room
  scope _ := new.scope
  hoisted := by
    rintro ⟨i, site, kind, role, -⟩
    rw [new.kind, NodeKind.identifier.injEq] at kind
    rw [← kind] at role
    cases role
  spells i kind := by
    rw [new.kind, NodeKind.identifier.injEq] at kind
    rw [← kind, new.span]
    exact taken.spells _
  listed _ _ _ := Array.mem_push_self
  placed := new.kind ▸ trivial
  ordinary := new.kind ▸ rfl
  bodiless := new.kind ▸ rfl

/-- A binding spells its name. A `var` belongs to the scope for these, any other to the current one. -/
theorem gains_bind {token : Token} {site : BindingSite} (taken : s.Takes origin token)
    (level : site.kind = .var → s.Level) {exported : Bool} (new : n.Resembles ⟨.identifier {
        name := identifierName token, role := .binding { site with exported } }, token.span,
      if site.kind = .var then s.scopes.varScope s.scope else s.scope, s.opened.head?, #[]⟩) :
    s.Gains origin t n := by
  have isVar : n.IsVar → site.kind = .var := by
    rintro ⟨i, site', kind, role, is⟩
    rw [new.kind, NodeKind.identifier.injEq] at kind
    rw [← kind] at role
    rwa [← IdentifierRole.binding.inj role] at is
  have isVar_of (is : site.kind = .var) : n.IsVar := ⟨_, _, new.kind, rfl, is⟩
  exact {
    parent := new.parent
    room := new.span ▸ taken.room
    scope := fun other => new.scope.trans (if_neg fun is => other (isVar_of is))
    hoisted := fun is => ⟨level (isVar is), new.scope.trans (if_pos (isVar is))⟩
    spells := fun i kind => by
      rw [new.kind, NodeKind.identifier.injEq] at kind
      rw [← kind, new.span]
      exact taken.spells _
    listed := fun i kind reference => by
      rw [new.kind, NodeKind.identifier.injEq] at kind
      rw [← kind] at reference
      cases reference
    placed := new.kind ▸ trivial
    ordinary := new.kind ▸ rfl
    bodiless := new.kind ▸ rfl }

/-- A node that turns out to be an import ends where the import has been read to. -/
theorem turns_closeImport {id : NodeId} {node : ImportNode} {stop : Nat}
    (admitted : s.Admits origin (.importDeclaration node)) (reads : s.ReadsImport origin id node stop)
    (begins : ∀ n, s.nodes[id.index]? = some n → n.span.start < origin.ends) (mayEnd : s.MayEnd origin id stop)
    (kept : s.NodesKept t) (same : t.nodes.size = s.nodes.size) (old : s.nodes[id.index]? = some m) :
    s.Turns origin t id.index { m with
      kind := .importDeclaration node, span := { m.span with stop := max stop m.span.start } } where
  admitted := admitted
  bodies _ none := absurd none (Option.not_mem_none _)
  imports node' is := by
    have ends : max stop m.span.start = stop := by
      rcases mayEnd.covers m old with before | atEnd
      · exact Nat.max_eq_left (Nat.le_of_lt before)
      · exact absurd (begins m old) (Nat.not_lt.mpr (Nat.le_of_eq atEnd.symm))
    obtain rfl := NodeKind.importDeclaration.inj is
    dsimp only
    rw [ends]
    exact reads.fits old (begins m old) kept same

end State

open State

/-- A node behind a step is the one that the step has added, or one that it has kept. -/
theorem Step.node_cases (step : Step origin s t) {i : Nat} {n : Node} (found : t.nodes[i]? = some n) :
    i = s.nodes.size ∧ s.Gains origin t n ∨ ∃ m, s.nodes[i]? = some m ∧ s.Retains origin t i m n := by
  -- What has been kept has been kept with its place.
  have nodesKept := step.nodesKept
  have kept {m : Node} (old : s.nodes[i]? = some m) : m.IsKept n := by
    obtain ⟨k, found', kept⟩ := nodesKept i m old
    rwa [Option.some.inj (found.symm.trans found')]
  cases step with
  | read same =>
      rw [same.nodes] at found
      exact .inr ⟨n, found, .of_resembles (.refl n)⟩
  | openNode kind start ordinary bodiless admitted room =>
      exact retains_of_addNode (fun _ => gains_openNode ordinary bodiless admitted room) found
  | closeNode id stop mayEnd =>
      obtain ⟨m, old, ⟨rfl, rfl⟩ | ⟨-, rfl⟩⟩ := modify_cases found
      · exact .inr ⟨m, old, kept old, .inl rfl⟩
      · exact .inr ⟨n, old, .of_resembles (.refl n)⟩
  | setKind id kind held ordinary bodies admitted =>
      obtain ⟨m, old, ⟨rfl, rfl⟩ | ⟨-, rfl⟩⟩ := modify_cases found
      · refine .inr ⟨m, old, kept old, .inr ⟨admitted, bodies, fun node is => ?_⟩⟩
        rw [show kind = .importDeclaration node from is] at ordinary
        cases ordinary
      · exact .inr ⟨n, old, .of_resembles (.refl n)⟩
  | closeImport id node stop admitted reads begins once mayEnd =>
      obtain ⟨m, between, ⟨rfl, rfl⟩ | ⟨other, rfl⟩⟩ := modify_cases found
      · obtain ⟨k, old, ⟨-, rfl⟩ | ⟨other, -⟩⟩ := modify_cases between
        · have size : ((s.setKind id (.importDeclaration node)).closeNodeAt id stop).nodes.size = s.nodes.size := by
            simp [State.closeNodeAt, State.setKind]
          have turns := turns_closeImport (m := k) admitted reads begins mayEnd nodesKept size old
          exact .inr ⟨k, old, kept old, .inr turns⟩
        · exact absurd rfl other
      · obtain ⟨k, old, ⟨is, -⟩ | ⟨-, rfl⟩⟩ := modify_cases between
        · exact absurd is other
        · exact .inr ⟨n, old, .of_resembles (.refl n)⟩
  | refer token taken => exact retains_of_addNode (fun _ => gains_refer taken) found
  | bind token site taken level => exact retains_of_addNode (s := s) (fun _ => gains_bind taken level) found
  | enterScope kind => exact .inr ⟨n, found, .of_resembles (.refl n)⟩
  | leaveScope scope => exact .inr ⟨n, found, .of_resembles (.refl n)⟩

/-! ### What holds at every moment -/

/-- Where the open nodes are, and what holds of all nodes, scopes and references. -/
structure State.Grown (origin : Cursor) (s : State) : Prop where
  coherent : s.Coherent
  layout : Layout origin s.nodes s.opened
  held : ∀ id ∈ s.opened, s.Holds id
  inside : s.Inside s.opened s.scope
  nested : ∀ (i : Nat) (n : Node) (p : NodeId) (m : Node), s.nodes[i]? = some n → n.parent = some p →
    s.nodes[p.index]? = some m → n.NestsIn s.scopes m.scope
  spells : ∀ (i : Nat) (n : Node) (k : IdentifierNode), s.nodes[i]? = some n → n.kind = .identifier k →
    k.Spells origin n.span
  /-- What is added behind an identifier stands behind it in the text. -/
  later : ∀ (i j : Nat) (n m : Node), s.nodes[i]? = some n → s.nodes[j]? = some m → i < j →
    n.kind.isIdentifier = true → n.span.stop ≤ m.span.start
  listed : ∀ id, IsReference s.nodes id → id ∈ s.references
  ascending : s.references.toList.Pairwise fun a b => a.index < b.index
  placed : ∀ (i : Nat) (n : Node), s.nodes[i]? = some n → n.kind.Placed origin
  ordinary : s.Ordinary
  bodies : ∀ (i : Nat) (n : Node), s.nodes[i]? = some n → ∀ body ∈ n.kind.body?, body.Fits origin s.nodes ⟨i⟩
  imports : ∀ (i : Nat) (n : Node) (node : ImportNode), s.nodes[i]? = some n → n.kind = .importDeclaration node →
    node.Fits origin s.nodes i n.span

/-- The current scope lies in the one around the node that the innermost open one is in. -/
theorem State.Grown.inside_outer (grown : s.Grown origin) {id p : NodeId} {rest : List NodeId}
    (opened : s.opened = id :: rest) (outer : rest.head? = some p) {m : Node} (there : s.nodes[p.index]? = some m) :
    s.scopes.isWithin s.scope m.scope = true := by
  have innermost : s.opened.head? = some id := by rw [opened, List.head?_cons]
  obtain ⟨k, here, plain⟩ := grown.held id (List.mem_of_head? innermost)
  have parent : k.parent = some p := by
    have isOpen := grown.layout.isOpen
    rw [opened] at isOpen
    exact (isOpen.parent_head here).trans outer
  exact ScopeForest.isWithin_trans grown.coherent.wellScoped.forest (grown.inside id k innermost here)
    ((grown.nested _ k p m here parent there).inside (Node.not_isVar plain))

namespace Step

variable (step : Step origin s t)
include step

theorem held (held : ∀ id ∈ s.opened, s.Holds id) : ∀ id ∈ t.opened, t.Holds id := by
  have kept (id : NodeId) (here : id ∈ s.opened) : t.Holds id :=
    Steps.holds (.single step) (held id here)
  cases step with
  | read same =>
      rw [same.opened]
      exact kept
  | openNode kind start ordinary bodiless admitted room =>
      intro id here
      rcases List.mem_cons.mp here with rfl | before
      · exact ⟨_, State.node_openNode s kind start, admitted.plain⟩
      · exact kept id before
  | closeNode id stop =>
      intro other here
      exact kept other ((List.dropWhile_sublist _).subset (List.mem_of_mem_drop here))
  | closeImport id node stop =>
      intro other here
      exact kept other ((List.dropWhile_sublist _).subset (List.mem_of_mem_drop here))
  | setKind | refer | bind | enterScope | leaveScope => exact kept

theorem layout (layout : Layout origin s.nodes s.opened) : Layout origin t.nodes t.opened := by
  cases step with
  | read same =>
      rw [same.nodes, same.opened]
      exact layout
  | openNode kind start ordinary bodiless admitted room =>
      exact layout.openNode room.rooted room.marks room.clear kind s.scope
  | closeNode id stop mayEnd =>
      obtain ⟨rest, opened⟩ := List.head?_eq_some_iff.mp mayEnd.innermost
      have closed : (s.closeNodeAt id stop).opened = rest := by
        simp [State.closeNodeAt, opened]
      rw [opened] at layout
      rw [closed]
      exact layout.closeNode mayEnd.marks mayEnd.clear mayEnd.covers
  | closeImport id node stop admitted reads begins once mayEnd =>
      obtain ⟨rest, opened⟩ := List.head?_eq_some_iff.mp mayEnd.innermost
      have closed : ((s.setKind id (.importDeclaration node)).closeNodeAt id stop).opened = rest := by
        simp [State.closeNodeAt, State.setKind, opened]
      rw [opened] at layout
      rw [closed]
      refine (layout.setKind id (.importDeclaration node)).closeNode mayEnd.marks (mayEnd.clear.setKind id _) ?_
      intro n found
      obtain ⟨m, old, ⟨-, rfl⟩ | ⟨other, -⟩⟩ := modify_cases found
      · exact mayEnd.covers m old
      · exact absurd rfl other
  | setKind id kind => exact layout.setKind id kind
  | refer token taken => exact layout.addNode taken.room.rooted taken.on taken.nonempty taken.room.clear _ _
  | bind token site taken => exact layout.addNode taken.room.rooted taken.on taken.nonempty taken.room.clear _ _
  | enterScope | leaveScope => exact layout

/-- A node in its parent. -/
theorem nested (grown : s.Grown origin) (i : Nat) (n : Node) (p : NodeId) (m : Node)
    (found : t.nodes[i]? = some n) (parent : n.parent = some p) (there : t.nodes[p.index]? = some m) :
    n.NestsIn t.scopes m.scope := by
  have wellScoped := grown.coherent.wellScoped
  have grows := (step.extends grown.coherent.scope).1
  -- The parent is an old node.
  have old (known : p.index < s.nodes.size) : ∃ m', s.nodes[p.index]? = some m' ∧ m.scope = m'.scope := by
    rcases step.node_cases there with ⟨last, -⟩ | ⟨m', here, retains⟩
    · exact absurd last (Nat.ne_of_lt known)
    · exact ⟨m', here, retains.kept.scope⟩
  rcases step.node_cases found with ⟨-, gains⟩ | ⟨n', here, retains⟩
  · have innermost := gains.parent.symm.trans parent
    obtain ⟨m', here, same⟩ := old (grown.held p (List.mem_of_head? innermost)).knows
    have nests : n.NestsIn s.scopes m'.scope := {
      inside := fun other => by
        rw [gains.scope other]
        exact grown.inside p m' innermost here
      hoisted := fun is => by
        rw [(gains.hoisted is).2, (gains.hoisted is).1 p m' innermost here] }
    rw [same]
    refine nests.extends grows wellScoped.forest ?_ (wellScoped.inRange _ m' here).scope
    by_cases is : n.IsVar
    · rw [(gains.hoisted is).2]
      exact s.scopes.varScope_lt grown.coherent.scope
    · rw [gains.scope is]
      exact grown.coherent.scope
  · have parent' : n'.parent = some p := retains.kept.parent.symm.trans parent
    have known := (Array.getElem?_eq_some_iff.mp here).choose
    obtain ⟨m', here', same⟩ := old (Nat.lt_trans (grown.layout.parent_lt i n' p here parent') known)
    rw [same]
    refine Node.NestsIn.congr ?_ retains.isVar_iff retains.kept.scope
    exact (grown.nested i n' p m' here parent' here').extends grows wellScoped.forest
      (wellScoped.inRange i n' here).scope (wellScoped.inRange _ m' here').scope

/-- The current scope lies in the one around the innermost open node. -/
theorem inside (grown : s.Grown origin) : t.Inside t.opened t.scope := by
  have forest := grown.coherent.wellScoped.forest
  have known (id : NodeId) (here : id ∈ s.opened) : s.Knows id := (grown.held id here).knows
  have kept : t.Inside s.opened s.scope := Steps.inside (.single step) forest grown.coherent.scope known
    grown.coherent.scope grown.inside
  -- What is open was there before.
  have behind {p : NodeId} {m : Node} (isOpen : p ∈ s.opened) (found : t.nodes[p.index]? = some m) :
      ∃ m', s.nodes[p.index]? = some m' ∧ m.scope = m'.scope := by
    obtain ⟨m', old, -⟩ := grown.held p isOpen
    obtain ⟨k, found', same⟩ := step.nodesKept p.index m' old
    exact ⟨m', old, Option.some.inj (found.symm.trans found') ▸ same.scope⟩
  cases step with
  | read same =>
      rw [same.opened, same.scope]
      exact kept
  | openNode kind start =>
      intro id n innermost found
      obtain rfl := Option.some.inj innermost
      obtain rfl := Option.some.inj ((State.node_openNode s kind start).symm.trans found)
      exact ScopeForest.isWithin_self _ _
  | closeNode id stop mayEnd =>
      intro p m innermost found
      obtain ⟨rest, opened⟩ := List.head?_eq_some_iff.mp mayEnd.innermost
      have outer : rest.head? = some p := by
        simpa [State.closeNodeAt, opened] using innermost
      obtain ⟨m', old, same⟩ := behind (opened ▸ List.mem_cons_of_mem _ (List.mem_of_head? outer)) found
      rw [same]
      exact grown.inside_outer opened outer old
  | closeImport id node stop admitted reads begins once mayEnd =>
      intro p m innermost found
      obtain ⟨rest, opened⟩ := List.head?_eq_some_iff.mp mayEnd.innermost
      have outer : rest.head? = some p := by
        simpa [State.closeNodeAt, State.setKind, opened] using innermost
      obtain ⟨m', old, same⟩ := behind (opened ▸ List.mem_cons_of_mem _ (List.mem_of_head? outer)) found
      rw [same]
      exact grown.inside_outer opened outer old
  | setKind | refer | bind => exact kept
  | enterScope kind =>
      intro id n innermost found
      exact ScopeForest.isWithin_trans (forest.add kind grown.coherent.scope)
        (ScopeForest.isWithin_add kind grown.coherent.scope forest) (kept id n innermost found)
  | leaveScope scope known inside => exact inside

theorem ascending (coherent : s.Coherent)
    (ascending : s.references.toList.Pairwise fun a b => a.index < b.index) :
    t.references.toList.Pairwise fun a b => a.index < b.index := by
  cases step with
  | read same =>
      rw [same.references]
      exact ascending
  | refer token =>
      simp only [State.refer, Array.toList_push]
      refine List.pairwise_append.mpr ⟨ascending, List.pairwise_singleton .., fun a old b new => ?_⟩
      rw [List.mem_singleton.mp new]
      exact coherent.wellScoped.lt_size (Array.mem_toList_iff.mp old)
  | openNode | closeNode | setKind | closeImport | bind | enterScope | leaveScope => exact ascending

theorem references_subset {id : NodeId} (here : id ∈ s.references) : id ∈ t.references := by
  cases step with
  | read same =>
      rw [same.references]
      exact here
  | refer token => exact Array.mem_push_of_mem _ here
  | openNode | closeNode | setKind | closeImport | bind | enterScope | leaveScope => exact here

/-- An import has its ends. -/
theorem span_import (ordinary : s.Ordinary) {i : Nat} {n m : Node} {node : ImportNode} (old : s.nodes[i]? = some m)
    (kind : m.kind = .importDeclaration node) (found : t.nodes[i]? = some n) : n.span = m.span := by
  have closed : (⟨i⟩ : NodeId) ∉ s.opened := by
    intro isOpen
    have other := ordinary ⟨i⟩ isOpen m old
    rw [kind] at other
    cases other
  obtain ⟨-, k, found', same⟩ := step.closed old closed
  rw [Option.some.inj (found.symm.trans found'), same]

/-- What is added behind an import begins behind the gap there. -/
theorem importFits {i : Nat} {m : Node} {node : ImportNode} (old : s.nodes[i]? = some m)
    (kind : m.kind = .importDeclaration node) (fits : node.Fits origin s.nodes i m.span) :
    node.Fits origin t.nodes i m.span := by
  refine ⟨fits.begins, fits.splits, fun j k found later => ?_, fun name here => ?_, fun named here => ?_,
    fun k found top name here => ?_⟩
  · rcases step.kept_or_room found with ⟨k', before, kept⟩ | room
    · rw [kept.isIdentifier, kept.parent, kept.start]
      exact fits.later j k' before later
    · exact .inr (room.spaced i m old (kind ▸ rfl))
  · obtain ⟨stop, ends⟩ := fits.defaultName name here
    exact ⟨stop, step.nodesKept.endsName ends⟩
  · have braces := fits.named named here
    refine ⟨braces.opening, braces.closing, ?_, fun isEmpty j k found identifier => ?_⟩
    · exact fun specifier inBraces => step.nodesKept.endsName (braces.specifiers specifier inBraces)
    · rcases step.kept_or_room found with ⟨k', before, kept⟩ | room
      · have identifier' := kept.isIdentifier.symm.trans identifier
        rw [kept.span identifier']
        exact braces.empty isEmpty j k' before identifier'
      · exact .inr (room.clear i m old)
  · obtain ⟨k', found', kept⟩ := step.nodesKept i m old
    obtain rfl := Option.some.inj (found.symm.trans found')
    exact step.nodesKept.declaresIn (fits.declared m old (kept.parent.symm.trans top) name here)

theorem grown (grown : s.Grown origin) : t.Grown origin where
  coherent := step.coherent grown.coherent
  layout := step.layout grown.layout
  held := step.held grown.held
  inside := step.inside grown
  nested := step.nested grown
  spells i n k found kind := by
    rcases step.node_cases found with ⟨-, gains⟩ | ⟨m, here, retains⟩
    · exact gains.spells k kind
    · have before := retains.identifier kind
      rw [retains.kept.span (by rw [before]; rfl)]
      exact grown.spells i m k here (retains.identifier kind)
  later i j n m found there lt plain := by
    have known := (Array.getElem?_eq_some_iff.mp found).choose
    rcases step.node_cases found with ⟨rfl, -⟩ | ⟨n', here, retains⟩
    · rcases step.node_cases there with ⟨rfl, -⟩ | ⟨m', here', -⟩
      · exact absurd lt (Nat.lt_irrefl _)
      · exact absurd (Nat.lt_trans lt (Array.getElem?_eq_some_iff.mp here').choose) (Nat.lt_irrefl _)
    · rw [retains.kept.span (retains.kept.isIdentifier.symm.trans plain)]
      rcases step.node_cases there with ⟨-, gains⟩ | ⟨m', here', retains'⟩
      · exact gains.room.clear i n' here
      · rw [retains'.kept.start]
        exact grown.later i j n' m' here here' lt (retains.kept.isIdentifier.symm.trans plain)
  listed id is := by
    obtain ⟨n, k, found, kind, role⟩ := is
    rcases step.node_cases found with ⟨last, gains⟩ | ⟨m, here, retains⟩
    · rw [show id = ⟨s.nodes.size⟩ by rw [← last]]
      exact gains.listed k kind role
    · exact step.references_subset (grown.listed id ⟨m, k, here, retains.identifier kind, role⟩)
  ascending := step.ascending grown.coherent grown.ascending
  placed i n found := by
    rcases step.node_cases found with ⟨-, gains⟩ | ⟨m, here, retains⟩
    · exact gains.placed
    · rcases retains.kind with same | turns
      · rw [same]
        exact grown.placed i m here
      · exact turns.admitted.placed
  ordinary := step.ordinary grown.ordinary
  bodies i n found body here := by
    rcases step.node_cases found with ⟨-, gains⟩ | ⟨m, old, retains⟩
    · rw [gains.bodiless] at here
      exact absurd here (Option.not_mem_none _)
    · rcases retains.kind with same | turns
      · exact step.fits (grown.bodies i m old body (same ▸ here))
      · exact step.fits (turns.bodies body here)
  imports i n node found kind := by
    rcases step.node_cases found with ⟨-, gains⟩ | ⟨m, old, retains⟩
    · have ordinary := gains.ordinary
      rw [kind] at ordinary
      cases ordinary
    · rcases retains.kind with same | turns
      · have isImport : m.kind = .importDeclaration node := same.symm.trans kind
        have span : n.span = m.span := step.span_import grown.ordinary old isImport found
        rw [span]
        exact step.importFits old isImport (grown.imports i m node old isImport)
      · exact turns.imports node kind

end Step

theorem Steps.grown (steps : Steps origin s t) (grown : s.Grown origin) : t.Grown origin := by
  induction steps with
  | refl => exact grown
  | tail _ step ih => exact step.grown ih

theorem State.grown_initialState (source : List Char) : (initialState source).Grown origin where
  coherent := State.coherent_initialState source
  layout := .empty
  held id here := absurd here List.not_mem_nil
  inside id n innermost := by cases innermost
  nested i n p m found := by cases found
  spells i n k found := by cases found
  later i j n m found := by cases found
  listed id is := by
    obtain ⟨n, k, found, -⟩ := is
    cases found
  ascending := .nil
  placed i n found := by cases found
  ordinary id here := absurd here List.not_mem_nil
  bodies i n found := by cases found
  imports i n node found := by cases found

end Grammar

end BindingRepair.Script
