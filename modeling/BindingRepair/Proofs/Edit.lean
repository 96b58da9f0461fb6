/-
# What edits change

An edit that adds names adds nodes at the end, keeps the nodes that there were, and declares the names;
no node in which a component begins appears or vanishes. A renamed binding changes one identifier, and
none that refers to a binding.
-/

import BindingRepair.Proofs.WellScoped
import BindingRepair.Script.Edit

namespace BindingRepair.Script

open Text

namespace NodeKind

/-- No component begins at a node of the kind. -/
def isPlain : NodeKind → Bool
  | function _ | declarator _ | varDeclaration _ | exportDeclaration _ => false
  | _ => true

/-- The kind is plain and none of an identifier. Edits may change such kinds. -/
def isInert (kind : NodeKind) : Bool :=
  kind.isPlain && !kind.isIdentifier

end NodeKind

/-- The identifier under another name. It remembers the first name that it has in the source. -/
def IdentifierNode.renamed (i : IdentifierNode) (new : String) : IdentifierNode :=
  { i with
    name := new
    renamedFrom := if i.renamedFrom.isNone && !i.synthesized then some i.name else i.renamedFrom }

namespace Tree

/-- All nodes and scopes that the tree refers to exist. -/
abbrev IsWellScoped (t : Tree) : Prop :=
  WellScoped t.nodes t.scopes t.references

/-! ### Growing trees -/

/-- A node after some growth of the tree, which may have given it plain children. -/
structure NodeGrows (u : Tree) (n m : Node) : Prop where
  scope : m.scope = n.scope
  kind : m.kind = n.kind ∨ n.kind.isInert = true ∧ m.kind.isInert = true
  children : ∃ added, m.children.toList = n.children.toList ++ added ∧
    ∀ c ∈ added, ∃ kind, u.kind? c = some kind ∧ kind.isPlain = true

/-- All nodes are kept, and no component begins at a new one. -/
structure Grows (t u : Tree) : Prop where
  references : u.references = t.references
  node : ∀ id n, t.node? id = some n → ∃ m, u.node? id = some m ∧ NodeGrows u n m

theorem NodeGrows.refl (u : Tree) (n : Node) : NodeGrows u n n where
  scope := rfl
  kind := .inl rfl
  children := ⟨[], by simp, nofun⟩

theorem Grows.of_nodes {t u : Tree} (nodes : u.nodes = t.nodes)
    (references : u.references = t.references) : Grows t u where
  references := references
  node id n found := ⟨n, by rw [node?, nodes, ← node?, found], .refl u n⟩

theorem Grows.refl (t : Tree) : Grows t t :=
  .of_nodes rfl rfl

/-- A plain kind stays plain. -/
theorem Grows.isPlain {t u : Tree} (grows : Grows t u) {id : NodeId}
    (plain : ∃ kind, t.kind? id = some kind ∧ kind.isPlain = true) :
    ∃ kind, u.kind? id = some kind ∧ kind.isPlain = true := by
  obtain ⟨kind, found, plain⟩ := plain
  obtain ⟨n, foundNode, rfl⟩ := Option.map_eq_some_iff.mp found
  obtain ⟨m, found', nodeGrows⟩ := grows.node id n foundNode
  refine ⟨m.kind, by rw [kind?, found', Option.map_some], ?_⟩
  rcases nodeGrows.kind with same | ⟨-, inert⟩
  · rw [same, plain]
  · exact (Bool.and_eq_true_iff.mp inert).1

/-- An inert kind stays inert. -/
theorem Grows.isInert {t u : Tree} (grows : Grows t u) {id : NodeId}
    (inert : ∃ kind, t.kind? id = some kind ∧ kind.isInert = true) :
    ∃ kind, u.kind? id = some kind ∧ kind.isInert = true := by
  obtain ⟨kind, found, inert⟩ := inert
  obtain ⟨n, foundNode, rfl⟩ := Option.map_eq_some_iff.mp found
  obtain ⟨m, found', nodeGrows⟩ := grows.node id n foundNode
  refine ⟨m.kind, by rw [kind?, found', Option.map_some], ?_⟩
  rcases nodeGrows.kind with same | ⟨-, inert'⟩
  · rw [same, inert]
  · exact inert'

theorem Grows.trans {t u v : Tree} (first : Grows t u) (second : Grows u v) : Grows t v where
  references := second.references.trans first.references
  node id n found := by
    obtain ⟨m, found', grows⟩ := first.node id n found
    obtain ⟨k, found'', grows'⟩ := second.node id m found'
    refine ⟨k, found'', grows'.scope.trans grows.scope, ?_, ?_⟩
    · rcases grows.kind with same | ⟨inert, inert'⟩
      · rw [← same]
        exact grows'.kind
      · rcases grows'.kind with same | ⟨-, inert''⟩
        · exact .inr ⟨inert, same ▸ inert'⟩
        · exact .inr ⟨inert, inert''⟩
    · obtain ⟨added, children, plain⟩ := grows.children
      obtain ⟨added', children', plain'⟩ := grows'.children
      refine ⟨added ++ added', by rw [children', children, List.append_assoc], fun c here => ?_⟩
      rcases List.mem_append.mp here with old | new
      · exact second.isPlain (plain c old)
      · exact plain' c new

@[simp]
theorem size_addNode (t : Tree) (kind : NodeKind) (parent : NodeId) (scope : ScopeId)
    (offset : Nat) : (t.addNode kind parent scope offset).2.size = t.size + 1 :=
  size_appendNode ..

theorem node?_addNode (t : Tree) (kind : NodeKind) (parent : NodeId) (scope : ScopeId)
    (offset : Nat) (id : NodeId) :
    (t.addNode kind parent scope offset).2.node? id =
      if id.index = t.size then
        some { kind, span := Span.emptyAt offset, scope, parent := some parent
               children := if parent = id then #[id] else #[] }
      else if parent = id then
        (t.node? id).map fun n => { n with children := n.children.push ⟨t.size⟩ }
      else t.node? id := by
  unfold node? addNode
  rw [getElem?_appendNode]
  simp only [Option.some.injEq]
  rfl

theorem grows_addNode (t : Tree) {kind : NodeKind} (parent : NodeId) (scope : ScopeId)
    (offset : Nat) (plain : kind.isPlain = true) :
    Grows t (t.addNode kind parent scope offset).2 where
  references := rfl
  node id n found := by
    have old : id.index ≠ t.size := Nat.ne_of_lt (Array.getElem?_eq_some_iff.mp found).choose
    have last : (t.addNode kind parent scope offset).2.kind? ⟨t.size⟩ = some kind := by
      rw [kind?, node?_addNode, if_pos rfl]
      rfl
    rw [node?_addNode, if_neg old, found]
    split
    · refine ⟨_, rfl, rfl, .inl rfl, [⟨t.size⟩], by simp, fun c here => ?_⟩
      rw [List.mem_singleton.mp here]
      exact ⟨kind, last, plain⟩
    · exact ⟨n, rfl, .refl _ n⟩

theorem node?_modifyNode (t : Tree) (id other : NodeId) (change : Node → Node) :
    (t.modifyNode id change).node? other =
      if id = other then (t.node? other).map change else t.node? other := by
  unfold node? modifyNode
  rw [Array.getElem?_modify]
  by_cases same : id = other
  · simp [same]
  · have different : id.index ≠ other.index := fun equal => same (by cases id; cases other; simp_all)
    simp [same, different]

theorem grows_modifyNode (t : Tree) (id : NodeId) {change : Node → Node}
    (scope : ∀ n, (change n).scope = n.scope) (children : ∀ n, (change n).children = n.children)
    (kind : ∀ n, t.node? id = some n → (change n).kind = n.kind ∨
      n.kind.isInert = true ∧ (change n).kind.isInert = true) :
    Grows t (t.modifyNode id change) where
  references := rfl
  node other n found := by
    rw [node?_modifyNode, found]
    split
    · rename_i same
      exact ⟨_, rfl, scope n, kind n (same ▸ found), [], by simp [children], nofun⟩
    · exact ⟨n, rfl, .refl _ n⟩

/-! ### Names and references -/

/-- The references are the same, with the same names in the same scopes. -/
structure SameUses (t u : Tree) : Prop where
  references : u.references = t.references
  name? : ∀ r ∈ t.references, u.name? r = t.name? r
  scopeOf : ∀ r ∈ t.references, u.scopeOf r = t.scopeOf r

theorem SameUses.refl (t : Tree) : SameUses t t :=
  ⟨rfl, fun _ _ => rfl, fun _ _ => rfl⟩

theorem SameUses.trans {t u v : Tree} (first : SameUses t u) (second : SameUses u v) :
    SameUses t v where
  references := second.references.trans first.references
  name? r here := (second.name? r (first.references ▸ here)).trans (first.name? r here)
  scopeOf r here := (second.scopeOf r (first.references ▸ here)).trans (first.scopeOf r here)

/-- Whatever is known of an identifier is kept by growth. -/
theorem Grows.identifier? {t u : Tree} (grows : Grows t u) {id : NodeId}
    (bounded : id.index < t.size) : u.identifier? id = t.identifier? id := by
  have found : t.node? id = some t.nodes[id.index] := Array.getElem?_eq_getElem bounded
  obtain ⟨m, found', nodeGrows⟩ := grows.node id _ found
  unfold Tree.identifier? kind?
  rw [found, found', Option.map_some, Option.map_some]
  rcases nodeGrows.kind with same | ⟨inert, inert'⟩
  · rw [same]
  · cases first : t.nodes[id.index].kind <;> cases second : m.kind <;>
      simp_all [NodeKind.isInert, NodeKind.isIdentifier]

theorem Grows.name? {t u : Tree} (grows : Grows t u) {id : NodeId} (bounded : id.index < t.size) :
    u.name? id = t.name? id := by
  rw [Tree.name?, Tree.name?, grows.identifier? bounded]

theorem Grows.sameUses {t u : Tree} (grows : Grows t u) (wellScoped : t.IsWellScoped) :
    SameUses t u where
  references := grows.references
  name? r here := grows.name? (wellScoped.lt_size here)
  scopeOf r here := by
    obtain ⟨n, -, found, -⟩ := wellScoped.isReference r here
    obtain ⟨m, found', nodeGrows⟩ := grows.node r n found
    rw [Tree.scopeOf, Tree.scopeOf, found', show t.node? r = some n from found]
    exact nodeGrows.scope

/-! ### Edits that add names -/

theorem IsWellScoped.moduleScope_lt {t : Tree} (wellScoped : t.IsWellScoped) :
    moduleScope.index < t.scopes.size :=
  wellScoped.forest.nonempty

/-- A kind that names no nodes and no scopes may be added anywhere. -/
theorem IsWellScoped.addNode {t : Tree} (wellScoped : t.IsWellScoped) {kind : NodeKind}
    {scope : ScopeId} (parent : NodeId) (offset : Nat) (bounded : scope.index < t.scopes.size)
    (named : kind.named = []) (body : kind.bodyScope? = none) :
    (t.addNode kind parent scope offset).2.IsWellScoped :=
  wellScoped.appendNode kind _ scope (some parent) bounded (by simp [named]) (by simp [body])

theorem IsWellScoped.modifyNode {t : Tree} (wellScoped : t.IsWellScoped) (id : NodeId)
    {change : Node → Node}
    (inRange : ∀ n, t.node? id = some n → n.InRange t.size t.scopes.size →
      (change n).InRange t.size t.scopes.size)
    (isReference : ∀ n i, t.node? id = some n → n.kind = .identifier i → i.role = .reference →
      (change n).kind = n.kind) :
    (t.modifyNode id change).IsWellScoped :=
  WellScoped.modify wellScoped id inRange isReference

section AddBinding

variable (t : Tree) (parent : NodeId) (scope : ScopeId) (name : String) (kind : BindingKind)

@[simp]
theorem fst_addBinding : (t.addBinding parent scope name kind).1 = ⟨t.size⟩ :=
  rfl

@[simp]
theorem size_addBinding : (t.addBinding parent scope name kind).2.size = t.size + 1 :=
  size_appendNode ..

@[simp]
theorem scopes_addBinding : (t.addBinding parent scope name kind).2.scopes =
    t.scopes.declare scope name ⟨t.size⟩ :=
  rfl

theorem grows_addBinding : Grows t (t.addBinding parent scope name kind).2 :=
  (t.grows_addNode parent scope _ rfl).trans (.of_nodes rfl rfl)

variable {t scope}

theorem IsWellScoped.addBinding (wellScoped : t.IsWellScoped) (bounded : scope.index < t.scopes.size) :
    (t.addBinding parent scope name kind).2.IsWellScoped :=
  WellScoped.of_sameShape (wellScoped.addNode parent _ bounded rfl rfl)
    (ScopeForest.sameShape_declare ..)

end AddBinding

section AddImportedName

variable (t : Tree) (importId : NodeId) (name : String)

@[simp]
theorem scopes_addImportedName : (t.addImportedName importId name).scopes =
    t.scopes.declare moduleScope name ⟨t.size⟩ :=
  rfl

theorem grows_addImportedName : Grows t (t.addImportedName importId name) := by
  refine (t.grows_addBinding importId moduleScope name .imported).trans ?_
  refine grows_modifyNode _ importId (fun _ => rfl) (fun _ => rfl) fun n _ => ?_
  cases n.kind with
  | importDeclaration i => exact .inr ⟨rfl, rfl⟩
  | _ => exact .inl rfl

variable {t}

theorem IsWellScoped.addImportedName (wellScoped : t.IsWellScoped) :
    (t.addImportedName importId name).IsWellScoped := by
  have added := wellScoped.addBinding importId name .imported wellScoped.moduleScope_lt
  refine IsWellScoped.modifyNode added importId ?_ ?_
  · intro n _ inRange
    refine ⟨inRange.scope, inRange.children, fun c here => ?_, fun s here => ?_⟩
    · dsimp only at here
      split at here
      · rename_i i isImport
        rw [NodeKind.named, ImportNode.localNodes, ← List.append_assoc, List.mem_append,
          List.mem_singleton] at here
        rcases here with old | rfl
        · exact inRange.named c (by rwa [isImport])
        · exact Nat.lt_of_lt_of_eq (Nat.lt_succ_self _) (size_addBinding ..).symm
      · exact inRange.named c here
    · dsimp only at here
      split at here
      · cases here
      · exact inRange.body s here
  · intro n i _ identifier _
    dsimp only
    rw [identifier]

end AddImportedName

/-- Names are declared in a scope: the uses of them inside it that found nothing now find it, and
nothing else differs for the uses of names. -/
structure Declares (t u : Tree) (scope : ScopeId) (names : List String) : Prop where
  grows : Grows t u
  wellScoped : u.IsWellScoped
  shape : t.scopes.SameShape u.scopes
  resolve? : ∀ (s : ScopeId) (other : String), s.index < t.scopes.size →
    u.scopes.resolve? s other =
      if other ∈ names ∧ scope ∈ t.scopes.chain s ∧ t.scopes.resolve? s other = none then some scope
      else t.scopes.resolve? s other

theorem Declares.of_grows {t u : Tree} (grows : Grows t u) (wellScoped : u.IsWellScoped)
    (scopes : u.scopes = t.scopes) (scope : ScopeId) : Declares t u scope [] where
  grows := grows
  wellScoped := wellScoped
  shape := scopes ▸ .refl _
  resolve? s other _ := by
    rw [if_neg fun all => List.not_mem_nil all.1, scopes]

theorem Declares.trans {t u v : Tree} {scope : ScopeId} {names names' : List String}
    (first : Declares t u scope names) (second : Declares u v scope names') :
    Declares t v scope (names ++ names') where
  grows := first.grows.trans second.grows
  wellScoped := second.wellScoped
  shape := first.shape.trans second.shape
  resolve? s other bounded := by
    rw [second.resolve? s other (by rw [first.shape.size_eq]; exact bounded),
      first.resolve? s other bounded, ScopeForest.chain_of_sameShape first.shape]
    by_cases unbound : scope ∈ t.scopes.chain s ∧ t.scopes.resolve? s other = none
    · by_cases early : other ∈ names
      · simp [early, unbound]
      · simp [early, unbound]
    · simp [unbound]

theorem declares_addBinding {t : Tree} (wellScoped : t.IsWellScoped) (parent : NodeId)
    {scope : ScopeId} (bounded : scope.index < t.scopes.size) {name : String} (kind : BindingKind)
    (unseen : t.scopes.resolve? scope name = none) :
    Declares t (t.addBinding parent scope name kind).2 scope [name] where
  grows := t.grows_addBinding parent scope name kind
  wellScoped := wellScoped.addBinding parent name kind bounded
  shape := ScopeForest.sameShape_declare ..
  resolve? s other _ := by
    simp only [scopes_addBinding, List.mem_singleton]
    exact ScopeForest.resolve?_declare wellScoped.forest bounded unseen

/-- A name may be imported whether it is bound in the module or not. -/
theorem declares_addImportedName {t : Tree} (wellScoped : t.IsWellScoped) (importId : NodeId)
    (name : String) : Declares t (t.addImportedName importId name) moduleScope [name] where
  grows := t.grows_addImportedName importId name
  wellScoped := wellScoped.addImportedName importId name
  shape := ScopeForest.sameShape_declare ..
  resolve? s other bounded := by
    have inModule : moduleScope ∈ t.scopes.chain s :=
      ScopeForest.module_mem_chain wellScoped.forest bounded
    simp only [scopes_addImportedName, List.mem_singleton, inModule, true_and]
    exact ScopeForest.resolve?_declare_module wellScoped.forest bounded

theorem declares_foldl_addImportedName {t : Tree} (wellScoped : t.IsWellScoped) (importId : NodeId)
    (names : List String) :
    Declares t (names.foldl (·.addImportedName importId) t) moduleScope names := by
  induction names generalizing t with
  | nil => exact .of_grows (.refl t) wellScoped rfl moduleScope
  | cons name names ih =>
      have first := declares_addImportedName wellScoped importId name
      exact first.trans (ih first.wellScoped)

/-- Names are added one by one, to an import that accepts them or is not in the source. -/
theorem addImportNames_eq {t u : Tree} {importId : NodeId} {names : List String}
    (edited : t.addImportNames importId names = .ok u) : ∃ i, t.import? importId = some i ∧
      ((t.spanOf importId).isEmpty = true ∨ i.acceptsNames = true) ∧
      u = names.foldl (·.addImportedName importId) t := by
  unfold addImportNames at edited
  split at edited
  · cases edited
  · rename_i i isImport
    split at edited
    · cases edited
    · rename_i takes
      cases edited
      exact ⟨i, isImport, by simpa [or_iff_not_imp_left] using takes, rfl⟩

theorem declares_addImportNames {t u : Tree} {importId : NodeId} {names : List String}
    (wellScoped : t.IsWellScoped) (edited : t.addImportNames importId names = .ok u) :
    Declares t u moduleScope names := by
  obtain ⟨-, -, -, rfl⟩ := addImportNames_eq edited
  exact declares_foldl_addImportedName wellScoped importId names

theorem declares_insertImport {t : Tree} (wellScoped : t.IsWellScoped) (module : String)
    (names : List String) : Declares t (t.insertImport module names).2 moduleScope names := by
  have added := wellScoped.addNode root t.importPlace.1 wellScoped.moduleScope_lt
    (rfl : (NodeKind.importDeclaration { source := module }).named = []) rfl
  have named := declares_foldl_addImportedName added ⟨t.size⟩ names
  refine ⟨?_, named.wellScoped, named.shape, named.resolve?⟩
  exact ((t.grows_addNode root _ _ rfl).trans named.grows).trans (.of_nodes rfl rfl)

/-! ### Declarations in a function -/

/-- The scope of the body in braces of a function. -/
def bodyScope? (t : Tree) (function : NodeId) : Option ScopeId :=
  ((t.function? function).bind (·.body)).map (·.scope)

theorem bodyScope?_of_blockBody {t : Tree} {function : NodeId} {body : FunctionBody}
    (found : t.blockBody function = .ok body) : t.bodyScope? function = some body.scope := by
  unfold blockBody at found
  unfold bodyScope?
  cases here : (t.function? function).bind (·.body) with
  | none =>
      rw [here] at found
      cases found
  | some b =>
      rw [here] at found
      cases found
      rfl

theorem IsWellScoped.bodyScope_lt {t : Tree} (wellScoped : t.IsWellScoped) {function : NodeId}
    {scope : ScopeId} (found : t.bodyScope? function = some scope) :
    scope.index < t.scopes.size := by
  unfold bodyScope? function? kind? at found
  cases here : t.node? function with
  | none => simp [here] at found
  | some n =>
      refine (wellScoped.inRange function.index n here).body scope ?_
      rw [here] at found
      cases kind : n.kind with
      | function f => simpa [kind, NodeKind.bodyScope?] using found
      | _ => simp [kind] at found

/-- A change of a node that keeps its scope and children declares nothing. -/
theorem declares_modifyNode {t : Tree} (wellScoped : t.IsWellScoped) (id : NodeId)
    (change : Node → Node) (scopeKept : ∀ n, (change n).scope = n.scope)
    (childrenKept : ∀ n, (change n).children = n.children)
    (kind : ∀ n, t.node? id = some n → (change n).kind = n.kind ∨
      n.kind.isInert = true ∧ (change n).kind.isInert = true)
    (inRange : ∀ n, n.InRange t.size t.scopes.size → (change n).InRange t.size t.scopes.size)
    (scope : ScopeId) : Declares t (t.modifyNode id change) scope [] := by
  have kept : (t.modifyNode id change).IsWellScoped := by
    refine wellScoped.modifyNode id (fun n _ => inRange n) fun n i found identifier _ => ?_
    rcases kind n found with same | ⟨inert, -⟩
    · exact same
    · rw [identifier] at inert
      cases inert
  exact .of_grows (t.grows_modifyNode id scopeKept childrenKept kind) kept rfl scope

/-- Where a declaration is placed matters only to what is printed. -/
theorem declares_placeDeclaration {t : Tree} (wellScoped : t.IsWellScoped) (body : FunctionBody)
    (id : NodeId) (scope : ScopeId) : Declares t (t.placeDeclaration body id) scope [] := by
  have moved := declares_modifyNode wellScoped id
    (fun n => { n with span := Span.emptyAt (t.declarationPlace body).1 }) (fun _ => rfl)
    (fun _ => rfl) (fun _ _ => .inl rfl)
    (fun _ inRange => ⟨inRange.scope, inRange.children, inRange.named, inRange.body⟩) scope
  exact ⟨moved.grows.trans (.of_nodes rfl rfl), moved.wellScoped, moved.shape, moved.resolve?⟩

/-- The statement that declares names takes in the nodes of the names. -/
theorem declares_synthesize {t : Tree} (wellScoped : t.IsWellScoped) {id : NodeId}
    (inert : ∃ kind, t.kind? id = some kind ∧ kind.isInert = true) {d : SynthesizedDeclaration}
    (named : ∀ c ∈ (NodeKind.synthesized d).named, c.index < t.size) (body : FunctionBody)
    (scope : ScopeId) : Declares t (t.synthesize id d body) scope [] := by
  obtain ⟨kind, found, inert⟩ := inert
  obtain ⟨n, foundNode, rfl⟩ := Option.map_eq_some_iff.mp found
  have declared := declares_modifyNode wellScoped id (fun n => { n with kind := .synthesized d })
    (fun _ => rfl) (fun _ => rfl)
    (fun m again => by
      rw [foundNode, Option.some.injEq] at again
      exact .inr ⟨again ▸ inert, rfl⟩)
    (fun _ inRange => ⟨inRange.scope, inRange.children, named, nofun⟩) scope
  exact declared.trans (declares_placeDeclaration declared.wellScoped body id scope)

/-- A statement without a name yet. -/
theorem declares_statement {t : Tree} (wellScoped : t.IsWellScoped) (parent : NodeId)
    {scope : ScopeId} (offset : Nat) (bounded : scope.index < t.scopes.size) :
    Declares t (t.addNode .statement parent scope offset).2 scope [] :=
  .of_grows (t.grows_addNode parent scope offset rfl)
    (wellScoped.addNode parent offset bounded rfl rfl) rfl scope

theorem isInert_statement (t : Tree) (parent : NodeId) (scope : ScopeId) (offset : Nat) :
    ∃ kind, (t.addNode .statement parent scope offset).2.kind? ⟨t.size⟩ = some kind ∧
      kind.isInert = true := by
  refine ⟨.statement, ?_, rfl⟩
  rw [kind?, node?_addNode, if_pos rfl]
  rfl

theorem declares_declareState {t u : Tree} {function id : NodeId} {value setter callee : String}
    {scope : ScopeId} (wellScoped : t.IsWellScoped) (inBody : t.bodyScope? function = some scope)
    (edited : t.declareState function value setter callee = .ok (id, u))
    (valueUnseen : t.scopes.resolve? scope value = none)
    (setterUnseen : t.scopes.resolve? scope setter = none) (different : value ≠ setter) :
    Declares t u scope [value, setter] := by
  unfold declareState at edited
  cases found : t.blockBody function with
  | error e =>
      rw [found] at edited
      cases edited
  | ok body =>
      rw [found] at edited
      cases edited
      obtain rfl : body.scope = scope :=
        Option.some.inj ((bodyScope?_of_blockBody found).symm.trans inBody)
      have bounded := wellScoped.bodyScope_lt inBody
      have statement := declares_statement wellScoped function (body.opening + 1) bounded
      have first := declares_addBinding statement.wellScoped ⟨t.size⟩ bounded .const valueUnseen
      have bounded' := first.shape.size_eq.symm ▸ bounded
      have setterUnseen' := (first.resolve? body.scope setter bounded).trans
        ((if_neg fun all => different (List.mem_singleton.mp all.1).symm).trans setterUnseen)
      have second := declares_addBinding first.wellScoped ⟨t.size⟩ bounded' .const setterUnseen'
      have inert := (first.grows.trans second.grows).isInert
        (t.isInert_statement function body.scope (body.opening + 1))
      have declared := (statement.trans first).trans second
      refine declared.trans (declares_synthesize declared.wellScoped inert (fun c here => ?_) body _)
      simp only [size_addBinding, size_addNode]
      rw [NodeKind.named, List.mem_cons, List.mem_singleton] at here
      rcases here with rfl | rfl
      · simp [size]
      · simp [size]

theorem declares_declareNull {t u : Tree} {function id : NodeId} {name : String} {scope : ScopeId}
    (wellScoped : t.IsWellScoped) (inBody : t.bodyScope? function = some scope)
    (edited : t.declareNull function name = .ok (id, u))
    (unseen : t.scopes.resolve? scope name = none) : Declares t u scope [name] := by
  unfold declareNull at edited
  cases found : t.blockBody function with
  | error e =>
      rw [found] at edited
      cases edited
  | ok body =>
      rw [found] at edited
      cases edited
      obtain rfl : body.scope = scope :=
        Option.some.inj ((bodyScope?_of_blockBody found).symm.trans inBody)
      have bounded := wellScoped.bodyScope_lt inBody
      have statement := declares_statement wellScoped function (body.opening + 1) bounded
      have first := declares_addBinding statement.wellScoped ⟨t.size⟩ bounded .let unseen
      have inert := first.grows.isInert
        (t.isInert_statement function body.scope (body.opening + 1))
      have declared := statement.trans first
      refine declared.trans (declares_synthesize declared.wellScoped inert (fun c here => ?_) body _)
      rw [List.mem_singleton.mp here]
      simp only [size_addBinding]
      exact Nat.lt_succ_self _

/-! ### Renaming -/

theorem identifier?_eq_some_iff {t : Tree} {id : NodeId} {i : IdentifierNode} :
    t.identifier? id = some i ↔ ∃ n, t.node? id = some n ∧ n.kind = .identifier i := by
  unfold identifier? kind?
  cases found : t.node? id with
  | none => simp
  | some n => cases kind : n.kind <;> simp [kind]

theorem import?_eq_some_iff {t : Tree} {id : NodeId} {i : ImportNode} :
    t.import? id = some i ↔ t.kind? id = some (.importDeclaration i) := by
  unfold import?
  cases t.kind? id with
  | none => simp
  | some kind => cases kind <;> simp

theorem IsWellScoped.scopeOf_lt {t : Tree} (wellScoped : t.IsWellScoped) (id : NodeId) :
    (t.scopeOf id).index < t.scopes.size := by
  unfold scopeOf
  cases found : t.node? id with
  | none => exact wellScoped.forest.nonempty
  | some n => exact (wellScoped.inRange id.index n found).scope

/-- A reference is an identifier that declares nothing. -/
theorem IsWellScoped.identifier?_of_mem {t : Tree} (wellScoped : t.IsWellScoped) {r : NodeId}
    (here : r ∈ t.references) : ∃ i, t.identifier? r = some i ∧ i.site? = none := by
  obtain ⟨n, i, found, kind, role⟩ := wellScoped.isReference r here
  refine ⟨i, identifier?_eq_some_iff.mpr ⟨n, found, kind⟩, ?_⟩
  rw [IdentifierNode.site?, role]

theorem SameUses.of_node? {t u : Tree} (references : u.references = t.references)
    (node : ∀ r ∈ t.references, u.node? r = t.node? r) : SameUses t u where
  references := references
  name? r here := by
    rw [Tree.name?, Tree.name?, Tree.identifier?, Tree.identifier?, kind?, kind?, node r here]
  scopeOf r here := by rw [Tree.scopeOf, Tree.scopeOf, node r here]

/-- What the node of an identifier becomes under another name. -/
theorem rename_eq {t u : Tree} {id : NodeId} {new : String} (edited : t.rename id new = .ok u) :
    ∃ i, t.identifier? id = some i ∧ i.site?.isSome = true ∧
      u = { t.modifyNode id fun n => { n with kind := .identifier (i.renamed new) } with
        scopes := (t.scopes.undeclare (t.scopeOf id) i.name id).declare (t.scopeOf id) new id } := by
  unfold rename at edited
  cases found : t.identifier? id with
  | none =>
      rw [found] at edited
      cases edited
  | some i =>
      rw [found] at edited
      dsimp only at edited
      split at edited
      · cases edited
      · rename_i binds
        cases edited
        exact ⟨i, rfl, by simpa [Option.isSome_iff_ne_none] using binds, rfl⟩

/-- A renamed binding moves from one name to another in the table of its scope; it is none of the
references. -/
structure Renames (t u : Tree) (id : NodeId) (old new : String) : Prop where
  uses : SameUses t u
  wellScoped : u.IsWellScoped
  size_eq : u.size = t.size
  scopes : u.scopes = (t.scopes.undeclare (t.scopeOf id) old id).declare (t.scopeOf id) new id

theorem renames_rename {t u : Tree} {id : NodeId} {new : String} (wellScoped : t.IsWellScoped)
    (edited : t.rename id new = .ok u) : ∃ old, t.name? id = some old ∧ Renames t u id old new := by
  obtain ⟨i, found, binds, rfl⟩ := rename_eq edited
  have notReference : ∀ r ∈ t.references, id ≠ r := by
    rintro r here rfl
    obtain ⟨k, foundAgain, noSite⟩ := wellScoped.identifier?_of_mem here
    rw [found, Option.some.injEq] at foundAgain
    rw [foundAgain, noSite] at binds
    cases binds
  refine ⟨i.name, by rw [name?, found, Option.map_some], ?_, ?_, Array.size_modify, rfl⟩
  · refine .of_node? rfl fun r here => ?_
    exact (t.node?_modifyNode id r _).trans (if_neg (notReference r here))
  · have changed :
        (t.modifyNode id fun n => { n with kind := .identifier (i.renamed new) }).IsWellScoped := by
      refine wellScoped.modifyNode id ?_ ?_
      · exact fun _ _ inRange => ⟨inRange.scope, inRange.children, nofun, nofun⟩
      · intro n k foundNode identifier isReference
        obtain ⟨m, foundAgain, kind⟩ := identifier?_eq_some_iff.mp found
        rw [foundNode, Option.some.injEq] at foundAgain
        rw [← foundAgain, identifier, NodeKind.identifier.injEq] at kind
        rw [← kind, IdentifierNode.site?, isReference] at binds
        cases binds
    exact WellScoped.of_sameShape changed
      ((ScopeForest.sameShape_undeclare ..).trans (ScopeForest.sameShape_declare ..))

end Tree

end BindingRepair.Script
