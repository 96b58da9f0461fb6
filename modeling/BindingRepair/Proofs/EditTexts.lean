/-
# Texts of edits

A name, a module or a callee that an edited tree prints anew is one that an edit has brought.
-/

import BindingRepair.Proofs.Splicing

namespace BindingRepair.Script

/-- The texts that an edit brings. -/
def Edit.texts : Edit → List String
  | rename _ name => [name]
  | addImportNames _ names => names
  | insertImport module names => module :: names
  | declareState _ value setter callee => [value, setter, callee]
  | declareNull _ name => [name]

namespace NodeKind

/-- The texts that a node brings where it is printed. -/
def texts : NodeKind → List String
  | identifier i => [i.name]
  | importDeclaration i => [i.source]
  | synthesized (.state _ _ callee) => [callee]
  | _ => []

def isRenamed : NodeKind → Bool
  | identifier i => i.renamedFrom.isSome
  | _ => false

end NodeKind

namespace Tree

/-- The texts of all nodes that are new, or have been renamed, since `t` was read have a property. -/
def WritesOnly (P : String → Prop) (t u : Tree) : Prop :=
  ∀ id kind, u.kind? id = some kind → t.size ≤ id.index ∨ kind.isRenamed = true → ∀ text ∈ kind.texts, P text

variable {t u v : Tree} {P : String → Prop}

namespace WritesOnly

theorem addNode (writes : WritesOnly P t u) (kind : NodeKind) (brought : ∀ text ∈ kind.texts, P text)
    (parent : NodeId) (scope : ScopeId) (offset : Nat) : WritesOnly P t (u.addNode kind parent scope offset).2 := by
  intro id kind' found due
  rw [kind?_addNode] at found
  split at found
  · rw [← Option.some.inj found]
    exact brought
  · exact writes id kind' found due

theorem addBinding (writes : WritesOnly P t u) {name : String} (brought : P name) (parent : NodeId)
    (scope : ScopeId) (kind : BindingKind) : WritesOnly P t (u.addBinding parent scope name kind).2 :=
  writes.addNode (.identifier { name, role := .binding { kind }, synthesized := true })
    (List.forall_mem_singleton.mpr brought) parent scope _

/-- A change that leaves the texts of a node alone. -/
theorem modifyNode (writes : WritesOnly P t u) (id : NodeId) {change : Node → Node}
    (texts : ∀ n, (change n).kind.texts = n.kind.texts)
    (isRenamed : ∀ n, (change n).kind.isRenamed = n.kind.isRenamed) : WritesOnly P t (u.modifyNode id change) := by
  intro other kind found due
  rw [kind?_modifyNode] at found
  split at found
  · obtain ⟨n, node, rfl⟩ := Option.map_eq_some_iff.mp found
    rw [texts]
    exact writes other n.kind (by rw [kind?, node, Option.map_some]) (by rwa [isRenamed] at due)
  · exact writes other kind found due

theorem addImportedName (writes : WritesOnly P t u) (p : NodeId) {name : String} (brought : P name) :
    WritesOnly P t (u.addImportedName p name) := by
  refine (writes.addBinding brought p moduleScope .imported).modifyNode p (fun n => ?_) fun n => ?_
  · dsimp only
    split
    · rename_i i kind
      rw [kind]
      rfl
    · rfl
  · dsimp only
    split
    · rename_i i kind
      rw [kind]
      rfl
    · rfl

theorem foldl_addImportedName (writes : WritesOnly P t u) (p : NodeId) {names : List String}
    (brought : ∀ name ∈ names, P name) : WritesOnly P t (names.foldl (·.addImportedName p) u) := by
  induction names generalizing u with
  | nil => exact writes
  | cons name names ih =>
      obtain ⟨first, rest⟩ := List.forall_mem_cons.mp brought
      exact ih (writes.addImportedName p first) rest

/-- A statement without a text becomes a declaration. -/
theorem synthesize (writes : WritesOnly P t u) (id : NodeId) (d : SynthesizedDeclaration)
    (brought : ∀ text ∈ (NodeKind.synthesized d).texts, P text) (body : FunctionBody) :
    WritesOnly P t (u.synthesize id d body) := by
  intro other kind found due
  rw [kind?_synthesize] at found
  split at found
  · obtain ⟨-, -, rfl⟩ := Option.map_eq_some_iff.mp found
    exact brought
  · exact writes other kind found due

/-- An edit brings its own texts and no others. -/
theorem edit (writes : WritesOnly P t u) (e : Edit) (brought : ∀ text ∈ e.texts, P text) :
    WritesOnly P t (u.edit e) := by
  refine edit_cases (motive := fun e v => (∀ text ∈ e.texts, P text) → WritesOnly P t v) u (fun _ _ => writes)
    ?_ ?_ ?_ ?_ ?_ e brought
  · intro id name v edited brought other kind found due
    obtain ⟨i, isIdentifier, -, -⟩ := rename_eq edited
    rw [kind?_rename isIdentifier edited] at found
    split at found
    · rw [← Option.some.inj found]
      exact brought
    · exact writes other kind found due
  · intro p names v edited brought
    obtain ⟨-, -, -, rfl⟩ := addImportNames_eq edited
    exact writes.foldl_addImportedName p brought
  · intro module names brought
    obtain ⟨first, rest⟩ := List.forall_mem_cons.mp brought
    rw [insertImport_eq]
    refine foldl_addImportedName ?_ _ rest
    exact writes.addNode (.importDeclaration { source := module }) (List.forall_mem_singleton.mpr first) root moduleScope _
  · intro function value setter callee id v edited brought
    obtain ⟨body, -, -, rfl⟩ := declareState_eq edited
    have statement := writes.addNode .statement (fun _ none => absurd none List.not_mem_nil) function body.scope (body.opening + 1)
    have first := statement.addBinding (brought value (by simp [Edit.texts])) ⟨u.size⟩ body.scope .const
    have second := first.addBinding (brought setter (by simp [Edit.texts])) ⟨u.size⟩ body.scope .const
    exact second.synthesize _ (.state _ _ callee) (List.forall_mem_singleton.mpr (brought callee (by simp [Edit.texts]))) body
  · intro function name id v edited brought
    obtain ⟨body, -, -, rfl⟩ := declareNull_eq edited
    have statement := writes.addNode .statement (fun _ none => absurd none List.not_mem_nil) function body.scope (body.opening + 1)
    have first := statement.addBinding (brought name (by simp [Edit.texts])) ⟨u.size⟩ body.scope .let
    exact first.synthesize _ (.null _) (fun _ none => absurd none List.not_mem_nil) body

theorem editAll (writes : WritesOnly P t u) {edits : List Edit} (brought : ∀ e ∈ edits, ∀ text ∈ e.texts, P text) :
    WritesOnly P t (u.editAll edits) := by
  induction edits generalizing u with
  | nil => exact writes
  | cons e edits ih =>
      obtain ⟨first, rest⟩ := List.forall_mem_cons.mp brought
      exact ih (writes.edit e first) rest

end WritesOnly

/-- In a pristine tree nothing is new. -/
theorem IsPristine.writesOnly (pristine : t.IsPristine) (P : String → Prop) : WritesOnly P t t := by
  rintro id kind found (outside | renamed)
  · exact absurd (lt_size_of_kind? found) (Nat.not_lt.mpr outside)
  · obtain ⟨n, node, rfl⟩ := Option.map_eq_some_iff.mp found
    cases kind : n.kind with
    | identifier i => simp [NodeKind.isRenamed, kind, (pristine.identifiers id n i node kind).2.1] at renamed
    | _ => simp [NodeKind.isRenamed, kind] at renamed

/-- What is written at a patch are bindings that have been renamed and new nodes. -/
theorem Descends.mem_of_patch (descends : t.Descends u) (pristine : t.IsPristine) {entry : Patch × List NodeId}
    (here : entry ∈ u.renamings ++ u.additions ++ u.declarations) {id : NodeId} (listed : id ∈ entry.2) :
    id ∈ u.renamedNodes ++ u.newSince t.size := by
  have written := List.mem_flatMap.mpr ⟨entry, here, listed⟩
  rw [descends.flatMap_nodes pristine] at written
  rw [List.mem_append] at written ⊢
  exact written.imp_right fun new => descends.once.subset new

/-- So their names are those that edits have brought. -/
theorem WritesOnly.name_of_patch (writes : WritesOnly P t u) (descends : t.Descends u) (pristine : t.IsPristine)
    {entry : Patch × List NodeId} (here : entry ∈ u.renamings ++ u.additions ++ u.declarations) {id : NodeId}
    (listed : id ∈ entry.2) {name : String} (named : u.name? id = some name) : P name := by
  obtain ⟨i, isIdentifier, rfl⟩ := Option.map_eq_some_iff.mp named
  obtain ⟨n, found, kind⟩ := identifier?_eq_some_iff.mp isIdentifier
  refine writes id (.identifier i) (by rw [kind?, found, Option.map_some, kind]) ?_ _ List.mem_cons_self
  rcases (descends.mem_nodes pristine).mp (descends.mem_of_patch pristine here listed) with
    ⟨-, m, found', renamed⟩ | ⟨outside, -⟩
  · right
    obtain rfl := Option.some.inj (found.symm.trans found')
    simpa [Tree.isRenamed, kind, NodeKind.isRenamed] using renamed
  · exact .inl outside

end Tree

end BindingRepair.Script
