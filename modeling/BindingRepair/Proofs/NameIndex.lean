/-
# Scopes as an index of the bindings

The tables of the scopes list the identifiers that bind names, each under its current name in its scope.
The parser enters every binding that it reads; edits enter the names that they add, and move a renamed
binding from one name to the other. So at every moment a look-up in the tables finds what a search of
all nodes would find.
-/

import BindingRepair.Proofs.Grammar.Parsed
import BindingRepair.Proofs.History
import BindingRepair.Proofs.NameTable

namespace BindingRepair.Script

open Text

/-- Whether the node is an identifier that binds a name in a scope. -/
def Node.bindsIn (n : Node) (s : ScopeId) (name : String) : Bool :=
  match n.kind with
  | .identifier i => n.scope == s && i.site?.isSome && i.name == name
  | _ => false

/-- A node with some number binds a name in a scope. -/
def Binds (nodes : Array Node) (id : NodeId) (s : ScopeId) (name : String) : Prop :=
  ∃ n, nodes[id.index]? = some n ∧ n.bindsIn s name = true

theorem Node.of_bindsIn {n : Node} {s : ScopeId} {name : String} (bindsIn : n.bindsIn s name = true) :
    ∃ i, n.kind = .identifier i ∧ i.site?.isSome = true ∧ n.scope = s ∧ i.name = name := by
  unfold Node.bindsIn at bindsIn
  split at bindsIn
  · rename_i i kind
    simp only [Bool.and_eq_true, beq_iff_eq] at bindsIn
    exact ⟨i, kind, bindsIn.1.2, bindsIn.1.1, bindsIn.2⟩
  · cases bindsIn

theorem Binds.name_eq {nodes : Array Node} {id : NodeId} {s s' : ScopeId} {name name' : String}
    (binds : Binds nodes id s name) (binds' : Binds nodes id s' name') : name = name' := by
  obtain ⟨n, found, bindsIn⟩ := binds
  obtain ⟨m, found', bindsIn'⟩ := binds'
  obtain ⟨i, kind, -, -, rfl⟩ := Node.of_bindsIn bindsIn
  obtain ⟨j, kind', -, -, rfl⟩ := Node.of_bindsIn bindsIn'
  rw [found, Option.some.injEq] at found'
  rw [← found', kind, NodeKind.identifier.injEq] at kind'
  rw [kind']

theorem Binds.lt_size {nodes : Array Node} {id : NodeId} {s : ScopeId} {name : String}
    (binds : Binds nodes id s name) : id.index < nodes.size := by
  obtain ⟨n, found, -⟩ := binds
  exact (Array.getElem?_eq_some_iff.mp found).choose

/-- The tables list the bindings of the nodes. -/
abbrev Indexed (nodes : Array Node) (scopes : ScopeForest) : Prop :=
  scopes.Lists (Binds nodes)

theorem Node.bindsIn_of_not_identifier {n : Node} (plain : n.kind.isIdentifier = false) (s : ScopeId)
    (name : String) : n.bindsIn s name = false := by
  unfold bindsIn
  cases kind : n.kind with
  | identifier i =>
      rw [kind] at plain
      cases plain
  | _ => rfl

theorem Node.bindsIn_iff {n : Node} {i : IdentifierNode} (kind : n.kind = .identifier i)
    (binds : i.site?.isSome = true) (s : ScopeId) (name : String) :
    n.bindsIn s name = true ↔ s = n.scope ∧ name = i.name := by
  rw [bindsIn, kind]
  simp only [binds, Bool.and_true, Bool.and_eq_true, beq_iff_eq]
  exact and_congr eq_comm eq_comm

/-- Two nodes of the same kind in the same scope bind the same. -/
theorem Node.bindsIn_congr {n m : Node} (kind : m.kind = n.kind) (scope : m.scope = n.scope)
    (s : ScopeId) (name : String) : m.bindsIn s name = n.bindsIn s name := by
  rw [bindsIn, bindsIn, kind, scope]

theorem binds_appendNode (nodes : Array Node) (kind : NodeKind) (span : Span) (scope : ScopeId)
    (parent : Option NodeId) (id : NodeId) (s : ScopeId) (name : String) :
    Binds (appendNode nodes kind span scope parent) id s name ↔
      Binds nodes id s name ∨ id = ⟨nodes.size⟩ ∧
        (⟨kind, span, scope, parent, #[]⟩ : Node).bindsIn s name = true := by
  unfold Binds
  rw [getElem?_appendNode]
  by_cases last : id.index = nodes.size
  · have new : id = ⟨nodes.size⟩ := by rw [← last]
    simp [new, Node.bindsIn]
  · have old : id ≠ ⟨nodes.size⟩ := fun equal => last (congrArg NodeId.index equal)
    rw [if_neg last, or_iff_left fun all => old all.1]
    split
    · cases nodes[id.index]? with
      | none => simp
      | some n => simp [Node.bindsIn]
    · rfl

theorem binds_modify (nodes : Array Node) (id : NodeId) (change : Node → Node) (other : NodeId)
    (s : ScopeId) (name : String) : Binds (nodes.modify id.index change) other s name ↔
      if other = id then ∃ n, nodes[id.index]? = some n ∧ (change n).bindsIn s name = true
      else Binds nodes other s name := by
  unfold Binds
  rw [Array.getElem?_modify]
  by_cases same : other = id
  · subst same
    simp
  · have different : id.index ≠ other.index := fun equal => same (by cases id; cases other; simp_all)
    rw [if_neg different, if_neg same]

namespace Indexed

variable {nodes : Array Node} {scopes : ScopeForest} (indexed : Indexed nodes scopes)
include indexed

/-- A node that binds nothing may be added. -/
theorem appendNode {kind : NodeKind} (span : Span) (scope : ScopeId) (parent : Option NodeId)
    (plain : ∀ n : Node, n.kind = kind → ∀ s name, n.bindsIn s name = false) :
    Indexed (appendNode nodes kind span scope parent) scopes := by
  refine indexed.congr (fun _ => rfl) fun id s name => ?_
  rw [binds_appendNode, plain _ rfl]
  simp

/-- A node may change if it goes on binding what it bound. -/
theorem modify (id : NodeId) {change : Node → Node}
    (same : ∀ n, nodes[id.index]? = some n → ∀ s name, (change n).bindsIn s name = n.bindsIn s name) :
    Indexed (nodes.modify id.index change) scopes := by
  refine indexed.congr (fun _ => rfl) fun other s name => ?_
  rw [binds_modify]
  split
  · rename_i here
    subst here
    refine exists_congr fun n => and_congr_right fun found => ?_
    rw [same n found]
  · rfl

/-- A binding that is added is declared. -/
theorem appendBinding {i : IdentifierNode} (span : Span) {scope : ScopeId} (parent : Option NodeId)
    (bounded : scope.index < scopes.size) (binds : i.site?.isSome = true) :
    Indexed (Script.appendNode nodes (.identifier i) span scope parent)
      (scopes.declare scope i.name ⟨nodes.size⟩) := by
  have new : ¬Binds nodes ⟨nodes.size⟩ scope i.name := by
    rintro ⟨n, found, -⟩
    simp at found
  refine (indexed.declare bounded new).congr (fun _ => rfl) fun id s name => ?_
  rw [binds_appendNode, Node.bindsIn_iff rfl binds]

/-- A binding under another name is entered there, and forgotten under the name before. -/
theorem rename {id : NodeId} {n : Node} {i j : IdentifierNode} (found : nodes[id.index]? = some n)
    (kind : n.kind = .identifier i) (binds : i.site?.isSome = true) (role : j.role = i.role)
    (bounded : n.scope.index < scopes.size) :
    Indexed (nodes.modify id.index fun n => { n with kind := .identifier j })
      ((scopes.undeclare n.scope i.name id).declare n.scope j.name id) := by
  have bounded' : n.scope.index < (scopes.undeclare n.scope i.name id).size := by
    rwa [(ScopeForest.sameShape_undeclare ..).size_eq]
  have here (s : ScopeId) (name : String) : Binds nodes id s name ↔ s = n.scope ∧ name = i.name := by
    simp only [Binds, found, Option.some.injEq, exists_eq_left', Node.bindsIn_iff kind binds]
  have bindsAfter : j.site?.isSome = true := by
    rwa [IdentifierNode.site?, role, ← IdentifierNode.site?]
  refine ((indexed.undeclare n.scope i.name id).declare bounded' ?_).congr (fun _ => rfl)
    fun other s name => ?_
  · rintro ⟨bound, remains⟩
    exact remains ⟨rfl, (here _ _).mp bound⟩
  · rw [binds_modify]
    by_cases same : other = id
    · subst same
      simp only [here, if_true, found, Option.some.injEq, exists_eq_left', true_and,
        Node.bindsIn_iff (n := { n with kind := .identifier j }) rfl bindsAfter]
      rw [or_iff_right fun both => both.2 both.1]
    · rw [if_neg same]
      simp [same]

end Indexed

/-! ### Parsed trees -/

namespace Grammar

/-- A node that is no identifier gets another kind, and is none still. -/
theorem State.indexed_setKind {s : State} {id : NodeId} {kind : NodeKind} (held : s.Holds id)
    (plain : kind.isIdentifier = false) (indexed : Indexed s.nodes s.scopes) :
    Indexed (s.setKind id kind).nodes s.scopes := by
  refine indexed.modify id fun n found scope name => ?_
  obtain ⟨m, found', plain'⟩ := held
  rw [found, Option.some.injEq] at found'
  rw [Node.bindsIn_of_not_identifier plain, Node.bindsIn_of_not_identifier (found' ▸ plain')]

theorem Step.indexed {origin : Cursor} {s t : State} (step : Step origin s t) (coherent : s.Coherent)
    (indexed : Indexed s.nodes s.scopes) : Indexed t.nodes t.scopes := by
  have silent {kind : NodeKind} (plain : kind.isIdentifier = false) (n : Node) (same : n.kind = kind) :
      ∀ s name, n.bindsIn s name = false :=
    Node.bindsIn_of_not_identifier (same ▸ plain)
  cases step with
  | read same =>
      rw [same.nodes, same.scopes]
      exact indexed
  | openNode kind start ordinary bodiless admitted room => exact indexed.appendNode _ _ _ (silent admitted.plain)
  | closeNode id stop => exact indexed.modify id fun _ _ => Node.bindsIn_congr rfl rfl
  | setKind id kind held ordinary bodies admitted => exact State.indexed_setKind held admitted.plain indexed
  | closeImport id node stop admitted reads begins once mayEnd =>
      exact (State.indexed_setKind mayEnd.held admitted.plain indexed).modify id fun _ _ => Node.bindsIn_congr rfl rfl
  | refer token =>
      refine indexed.appendNode _ _ _ fun n reference scope name => ?_
      simp [Node.bindsIn, reference, IdentifierNode.site?]
  | bind token site =>
      refine Indexed.appendBinding indexed _ _ ?_ rfl
      split
      · exact s.scopes.varScope_lt coherent.scope
      · exact coherent.scope
  | enterScope kind =>
      exact indexed.congr (ScopeForest.bindingsOf_add kind coherent.scope) fun _ _ _ => .rfl
  | leaveScope scope known => exact indexed

theorem Steps.indexed {origin : Cursor} {s t : State} (steps : Steps origin s t) (coherent : s.Coherent)
    (indexed : Indexed s.nodes s.scopes) : Indexed t.nodes t.scopes := by
  induction steps with
  | refl => exact indexed
  | tail steps step ih => exact step.indexed (Steps.coherent steps coherent) ih

theorem State.bindingsOf_initialState (source : List Char) (s : ScopeId) :
    (initialState source).scopes.bindingsOf s = [] := by
  rcases s with ⟨_ | i⟩
  · rfl
  · rfl

theorem State.indexed_initialState (source : List Char) :
    Indexed (initialState source).nodes (initialState source).scopes where
  tidy s := by
    rw [State.bindingsOf_initialState]
    exact NameTable.tidy_nil
  nodup s name := by
    rw [State.bindingsOf_initialState]
    exact List.nodup_nil
  mem_iff s name id := by
    rw [State.bindingsOf_initialState]
    simp [NameTable.nodesOf, Binds, initialState]

end Grammar

open Grammar

theorem indexed_of_parse {source : String} {dialect : Dialect} {t : Tree}
    (parsed : parse source dialect = .ok t) : Indexed t.nodes t.scopes := by
  obtain ⟨s, finished, rfl⟩ := finished_of_parse parsed
  exact finished.steps.indexed (State.coherent_initialState _) (State.indexed_initialState _)

theorem Binds.scopeOf {t : Tree} {id : NodeId} {s : ScopeId} {name : String}
    (binds : Binds t.nodes id s name) : t.scopeOf id = s := by
  obtain ⟨n, found, bindsIn⟩ := binds
  obtain ⟨i, -, -, scope, -⟩ := Node.of_bindsIn bindsIn
  rw [Tree.scopeOf, Tree.node?, found]
  exact scope

/-! ### Edited trees -/

namespace Tree

abbrev IsIndexed (t : Tree) : Prop :=
  Indexed t.nodes t.scopes

namespace IsIndexed

variable {t u : Tree} (indexed : t.IsIndexed)
include indexed

theorem addNode (kind : NodeKind) (parent : NodeId) (scope : ScopeId) (offset : Nat)
    (plain : kind.isIdentifier = false) : (t.addNode kind parent scope offset).2.IsIndexed :=
  indexed.appendNode _ _ _ fun _ same => Node.bindsIn_of_not_identifier (same ▸ plain)

theorem addBinding (parent : NodeId) {scope : ScopeId} (name : String) (kind : BindingKind)
    (bounded : scope.index < t.scopes.size) : (t.addBinding parent scope name kind).2.IsIndexed :=
  Indexed.appendBinding (i := { name, role := .binding { kind }, synthesized := true }) indexed
    (Span.emptyAt (t.spanOf parent).start) (some parent) bounded rfl

/-- A node that is no identifier may become any other. -/
theorem modifyNode (id : NodeId) {change : Node → Node} (scope : ∀ n, (change n).scope = n.scope)
    (kind : ∀ n, t.node? id = some n → (change n).kind = n.kind ∨
      n.kind.isIdentifier = false ∧ (change n).kind.isIdentifier = false) :
    (t.modifyNode id change).IsIndexed := by
  refine indexed.modify id fun n found s name => ?_
  rcases kind n found with same | ⟨plain, plain'⟩
  · exact Node.bindsIn_congr same (scope n) s name
  · rw [Node.bindsIn_of_not_identifier plain, Node.bindsIn_of_not_identifier plain']

theorem addImportedName (importId : NodeId) (name : String) (nonempty : 0 < t.scopes.size) :
    (t.addImportedName importId name).IsIndexed := by
  have added : (t.addBinding importId moduleScope name .imported).2.IsIndexed :=
    indexed.addBinding importId name .imported nonempty
  refine added.modifyNode importId (fun _ => rfl) fun n _ => ?_
  cases n.kind with
  | importDeclaration i => exact .inr ⟨rfl, rfl⟩
  | _ => exact .inl rfl

theorem foldl_addImportedName (importId : NodeId) (names : List String) (nonempty : 0 < t.scopes.size) :
    (names.foldl (·.addImportedName importId) t).IsIndexed := by
  induction names generalizing t with
  | nil => exact indexed
  | cons name names ih =>
      refine ih (indexed.addImportedName importId name nonempty) ?_
      rwa [scopes_addImportedName, (ScopeForest.sameShape_declare ..).size_eq]

theorem rename (wellScoped : t.IsWellScoped) {id : NodeId} {new : String}
    (edited : t.rename id new = .ok u) : u.IsIndexed := by
  obtain ⟨i, identifier, binds, rfl⟩ := rename_eq edited
  obtain ⟨n, found, kind⟩ := identifier?_eq_some_iff.mp identifier
  have scope : t.scopeOf id = n.scope := by rw [scopeOf, found]; rfl
  have bounded := wellScoped.scopeOf_lt id
  rw [scope] at bounded ⊢
  exact Indexed.rename indexed (j := i.renamed new) found kind binds rfl bounded

theorem synthesize {id : NodeId} (inert : ∃ kind, t.kind? id = some kind ∧ kind.isInert = true)
    (declaration : SynthesizedDeclaration) (body : FunctionBody) :
    (t.synthesize id declaration body).IsIndexed := by
  obtain ⟨kind, found, inert⟩ := inert
  obtain ⟨n, foundNode, rfl⟩ := Option.map_eq_some_iff.mp found
  have plain : n.kind.isIdentifier = false := by
    simpa using (Bool.and_eq_true_iff.mp inert).2
  have declared : (t.modifyNode id fun n => { n with kind := .synthesized declaration }).IsIndexed := by
    refine indexed.modifyNode id (fun _ => rfl) fun m again => ?_
    rw [foundNode, Option.some.injEq] at again
    exact .inr ⟨again ▸ plain, rfl⟩
  exact declared.modifyNode id (fun _ => rfl) fun _ _ => .inl rfl

/-- Edits keep the tables in step with the bindings. -/
theorem edit (wellScoped : t.IsWellScoped) (e : Edit) : (t.edit e).IsIndexed := by
  have nonempty := wellScoped.forest.nonempty
  refine edit_cases (motive := fun _ u => u.IsIndexed) t (fun _ => indexed) ?_ ?_ ?_ ?_ ?_ e
  · exact fun id name u => indexed.rename wellScoped
  · intro importId names u edited
    obtain ⟨-, -, -, rfl⟩ := addImportNames_eq edited
    exact indexed.foldl_addImportedName importId names nonempty
  · intro module names
    have added := indexed.addNode (.importDeclaration { source := module }) root moduleScope
      t.importPlace.1 rfl
    exact added.foldl_addImportedName ⟨t.size⟩ names nonempty
  · intro function value setter callee id u edited
    obtain ⟨body, found, rfl, rfl⟩ := declareState_eq edited
    have bounded := wellScoped.bodyScope_lt (bodyScope?_of_blockBody found)
    have statement := indexed.addNode .statement function body.scope (body.opening + 1) rfl
    have first := statement.addBinding ⟨t.size⟩ value .const bounded
    have second := IsIndexed.addBinding first ⟨t.size⟩ setter .const
      (bounded.trans_eq (ScopeForest.sameShape_declare ..).size_eq.symm)
    refine second.synthesize ?_ _ body
    exact (grows_addBinding _ ⟨t.size⟩ body.scope setter .const).isInert
      ((grows_addBinding _ ⟨t.size⟩ body.scope value .const).isInert (t.isInert_statement ..))
  · intro function name id u edited
    obtain ⟨body, found, rfl, rfl⟩ := declareNull_eq edited
    have bounded := wellScoped.bodyScope_lt (bodyScope?_of_blockBody found)
    have statement := indexed.addNode .statement function body.scope (body.opening + 1) rfl
    refine (statement.addBinding ⟨t.size⟩ name .let bounded).synthesize ?_ _ body
    exact (grows_addBinding _ ⟨t.size⟩ body.scope name .let).isInert (t.isInert_statement ..)

end IsIndexed

theorem binds_of_identifier? {t : Tree} {id : NodeId} {i : IdentifierNode}
    (identifier : t.identifier? id = some i) (binds : i.site?.isSome = true) :
    Binds t.nodes id (t.scopeOf id) i.name := by
  obtain ⟨n, found, kind⟩ := identifier?_eq_some_iff.mp identifier
  refine ⟨n, found, (Node.bindsIn_iff kind binds _ _).mpr ⟨?_, rfl⟩⟩
  rw [scopeOf, found]
  rfl

/-! ### Look-ups -/

/-- The identifiers that bind a name in a scope, found by a search of all nodes. -/
def bindersOf (t : Tree) (s : ScopeId) (name : String) : List NodeId :=
  ((List.range t.size).map NodeId.mk).filter fun id => (t.node? id).any (·.bindsIn s name)

theorem nodup_bindersOf (t : Tree) (s : ScopeId) (name : String) : (t.bindersOf s name).Nodup := by
  refine (List.Nodup.map ?_ List.nodup_range).filter _
  rintro _ _ ⟨⟩
  rfl

theorem mem_bindersOf {t : Tree} {s : ScopeId} {name : String} {id : NodeId} :
    id ∈ t.bindersOf s name ↔ Binds t.nodes id s name := by
  rw [bindersOf, List.mem_filter, List.mem_map, Option.any_eq_true]
  refine and_iff_right_of_imp fun ⟨n, found, _⟩ => ⟨id.index, List.mem_range.mpr ?_, rfl⟩
  exact (Array.getElem?_eq_some_iff.mp found).choose

/-- In an indexed tree the table of a scope lists what a search of all nodes finds. -/
theorem IsIndexed.perm_bindersOf {t : Tree} (indexed : t.IsIndexed) (s : ScopeId) (name : String) :
    ((t.scopes.bindingsOf s).nodesOf name).Perm (t.bindersOf s name) := by
  refine (List.perm_ext_iff_of_nodup (indexed.nodup s name) (t.nodup_bindersOf s name)).mpr fun id => ?_
  rw [indexed.mem_iff, mem_bindersOf]

theorem IsIndexed.binds_eq {t : Tree} (indexed : t.IsIndexed) (s : ScopeId) (name : String) :
    t.scopes.binds s name = !(t.bindersOf s name).isEmpty := by
  rw [Bool.eq_iff_iff, indexed.binds_iff, Bool.not_eq_true', List.isEmpty_eq_false_iff_exists_mem]
  simp only [mem_bindersOf]

end Tree

/-- The scopes are an exact index of the bindings at every moment. After any edits of a parsed tree, each
table lists its names in ascending order, none of them without nodes, and under a name each once the
identifiers that bind it in the scope; so whether a name is bound in a scope, and the scope that it refers
to, are told by the nodes alone. -/
theorem tables_list_bindings {source : String} {dialect : Dialect} {t : Tree}
    (parsed : parse source dialect = .ok t) (edits : List Edit) :
    let u := t.editAll edits
    ∀ s : ScopeId, (u.scopes.bindingsOf s).Tidy ∧ ∀ name : String,
      ((u.scopes.bindingsOf s).nodesOf name).Perm (u.bindersOf s name) ∧
      u.scopes.binds s name = !(u.bindersOf s name).isEmpty ∧
      u.scopes.resolve? s name = (u.scopes.chain s).find? fun r => !(u.bindersOf r name).isEmpty := by
  have invariant : (t.editAll edits).IsWellScoped ∧ (t.editAll edits).IsIndexed :=
    Tree.editAll_induction (motive := fun u => u.IsWellScoped ∧ u.IsIndexed)
      ⟨isWellScoped_of_parse parsed, indexed_of_parse parsed⟩
      (fun _ e sound => ⟨sound.1.edit e, sound.2.edit sound.1 e⟩) edits
  have indexed := invariant.2
  refine fun s => ⟨indexed.tidy s, fun name => ⟨?_, ?_, ?_⟩⟩
  · exact indexed.perm_bindersOf s name
  · exact indexed.binds_eq s name
  · exact List.find?_congr fun r _ => indexed.binds_eq r name

/-- Renames a variable, imports its new name besides, declares a parameter again and renames it. The
second edit fails. -/
def clashingEdits : List Edit :=
  [.rename ⟨3⟩ "b", .rename ⟨0⟩ "c", .insertImport "m" ["b"], .declareNull ⟨4⟩ "a", .rename ⟨6⟩ "b"]

set_option maxRecDepth 100000 in
/-- A name that is bound twice is listed with both nodes, and the name that was given up not at all. -/
theorem tables_of_clashing_edits : ∃ t,
    parse "var a; function f(a) \x7b var a \x7d" .javascript = .ok t ∧
      let u := t.editAll clashingEdits
      ((u.scopes.bindingsOf ⟨0⟩).nodesOf "b").Perm [⟨3⟩, ⟨12⟩] ∧
      ((u.scopes.bindingsOf ⟨1⟩).nodesOf "a").Perm [⟨10⟩, ⟨14⟩] ∧
      u.scopes.binds ⟨0⟩ "a" = false := by
  obtain ⟨t, parsed, test⟩ := exists_ok_of_test
    (parse "var a; function f(a) \x7b var a \x7d" .javascript)
    (fun t => let u := t.editAll clashingEdits
      u.bindersOf ⟨0⟩ "b" == [⟨3⟩, ⟨12⟩] && u.bindersOf ⟨1⟩ "a" == [⟨10⟩, ⟨14⟩] &&
        u.bindersOf ⟨0⟩ "a" == []) (by decide +kernel)
  simp only [Bool.and_eq_true, beq_iff_eq] at test
  obtain ⟨⟨outer, inner⟩, none⟩ := test
  have tables := tables_list_bindings parsed clashingEdits
  refine ⟨t, parsed, ?_, ?_, ?_⟩
  · rw [← outer]
    exact ((tables ⟨0⟩).2 "b").1
  · rw [← inner]
    exact ((tables ⟨1⟩).2 "a").1
  · rw [((tables ⟨0⟩).2 "a").2.1, none]
    rfl

end BindingRepair.Script
