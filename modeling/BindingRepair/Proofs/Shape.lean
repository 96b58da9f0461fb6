/-
# The shape of a tree

Every node but the module hangs below one with a smaller number, and a node lists as its children exactly
those that hang below it, in the order of their numbers. The parser builds trees of this shape. Edits hang
new nodes below old ones, wherever in the tree these are, and move no node.
-/

import BindingRepair.Proofs.Frame
import BindingRepair.Proofs.Grammar.Layout

namespace BindingRepair.Script

open Text

/-- Every node but the first hangs below an earlier one, which lists it. -/
structure Shaped (nodes : Array Node) : Prop where
  rooted : ∀ id : NodeId, id.index < nodes.size → parentIn nodes id = none → id = Tree.root
  parent_lt : ∀ id p : NodeId, parentIn nodes id = some p → p.index < id.index
  children : ∀ (i : Nat) (n : Node), nodes[i]? = some n → n.children.toList = childrenIn nodes ⟨i⟩

namespace Shaped

variable {nodes : Array Node}

theorem appendNode (shaped : Shaped nodes) (kind : NodeKind) (span : Span) (scope : ScopeId) {p : NodeId}
    (known : p.index < nodes.size) : Shaped (appendNode nodes kind span scope (some p)) where
  rooted id inside orphan := by
    rw [parentIn_appendNode] at orphan
    split at orphan
    · cases orphan
    · rename_i old
      rw [size_appendNode] at inside
      exact shaped.rooted id (Nat.lt_of_le_of_ne (Nat.lt_succ_iff.mp inside) old) orphan
  parent_lt id q parent := by
    rw [parentIn_appendNode] at parent
    split at parent
    · rename_i new
      rw [new, ← Option.some.inj parent]
      exact known
    · exact shaped.parent_lt id q parent
  children i n := children_appendNode shaped.children shaped.parent_lt fun _ is => Option.some.inj is ▸ known

theorem modify (shaped : Shaped nodes) (k : Nat) {change : Node → Node}
    (parent : ∀ n, (change n).parent = n.parent) (children : ∀ n, (change n).children = n.children) :
    Shaped (nodes.modify k change) where
  rooted id inside orphan := by
    rw [Array.size_modify] at inside
    exact shaped.rooted id inside ((parentIn_modify parent id).symm.trans orphan)
  parent_lt id p below := shaped.parent_lt id p ((parentIn_modify parent id).symm.trans below)
  children i n found := by
    rw [childrenIn_modify parent]
    obtain ⟨m, old, ⟨-, rfl⟩ | ⟨-, rfl⟩⟩ := modify_cases found
    · rw [children, shaped.children i m old]
    · exact shaped.children i n old

/-- What is laid out in the text has the shape of a tree. -/
theorem of_layout {origin : Cursor} {opened : List NodeId} (layout : Layout origin nodes opened) :
    Shaped nodes where
  rooted id inside orphan := by
    have found : nodes[id.index]? = some nodes[id.index] := Array.getElem?_eq_getElem inside
    rw [parentIn, found] at orphan
    exact congrArg NodeId.mk (layout.rooted _ _ found orphan)
  parent_lt id p parent := by
    obtain ⟨n, found, below⟩ := Option.bind_eq_some_iff.mp parent
    exact layout.parent_lt _ n p found below
  children := layout.children

end Shaped

namespace Tree

abbrev IsShaped (t : Tree) : Prop :=
  Shaped t.nodes

variable {t u v : Tree}

/-- Trees of the same shape, as far as the first goes. -/
structure KeepsShape (t u : Tree) : Prop where
  shaped : u.IsShaped
  size_le : t.size ≤ u.size
  parent : ∀ id : NodeId, id.index < t.size → parentIn u.nodes id = parentIn t.nodes id

namespace KeepsShape

theorem refl (shaped : t.IsShaped) : t.KeepsShape t :=
  ⟨shaped, Nat.le_refl _, fun _ _ => rfl⟩

theorem trans (first : t.KeepsShape u) (second : u.KeepsShape v) : t.KeepsShape v where
  shaped := second.shaped
  size_le := first.size_le.trans second.size_le
  parent id inside :=
    (second.parent id (inside.trans_le first.size_le)).trans (first.parent id inside)

/-- The shape is told by the nodes alone. -/
theorem of_nodes (shape : t.KeepsShape u) (same : v.nodes = u.nodes) : t.KeepsShape v where
  shaped := by
    rw [IsShaped, same]
    exact shape.shaped
  size_le := by
    rw [size, size, same]
    exact shape.size_le
  parent := same ▸ shape.parent

theorem addNode (shape : t.KeepsShape u) (kind : NodeKind) (parent : NodeId) (scope : ScopeId) (offset : Nat)
    (known : parent.index < u.size) : t.KeepsShape (u.addNode kind parent scope offset).2 where
  shaped := shape.shaped.appendNode kind _ scope known
  size_le := by
    rw [size_addNode]
    exact Nat.le_succ_of_le shape.size_le
  parent id inside := by
    have old : id.index ≠ u.nodes.size := Nat.ne_of_lt (inside.trans_le shape.size_le)
    rw [Tree.addNode, parentIn_appendNode, if_neg old]
    exact shape.parent id inside

theorem addBinding (shape : t.KeepsShape u) (parent : NodeId) (scope : ScopeId) (name : String)
    (kind : BindingKind) (known : parent.index < u.size) :
    t.KeepsShape (u.addBinding parent scope name kind).2 :=
  (shape.addNode (.identifier { name, role := .binding { kind }, synthesized := true }) parent scope
    (u.spanOf parent).start known).of_nodes rfl

theorem modifyNode (shape : t.KeepsShape u) (id : NodeId) (change : Node → Node)
    (parent : ∀ n, (change n).parent = n.parent) (children : ∀ n, (change n).children = n.children) :
    t.KeepsShape (u.modifyNode id change) where
  shaped := shape.shaped.modify id.index parent children
  size_le := shape.size_le.trans_eq Array.size_modify.symm
  parent other inside := (parentIn_modify parent other).trans (shape.parent other inside)

theorem foldl_addImportedName (shape : t.KeepsShape u) (importId : NodeId) (known : importId.index < u.size)
    (names : List String) : t.KeepsShape (names.foldl (·.addImportedName importId) u) := by
  induction names generalizing u with
  | nil => exact shape
  | cons name names ih =>
      have added : t.KeepsShape (u.addImportedName importId name) := by
        unfold addImportedName
        exact (shape.addBinding importId moduleScope name .imported known).modifyNode importId _ (fun _ => rfl) fun _ => rfl
      exact ih added (known.trans_le (u.grows_addImportedName importId name).size_le)

theorem synthesize (shape : t.KeepsShape u) (id : NodeId) (declaration : SynthesizedDeclaration)
    (body : FunctionBody) : t.KeepsShape (u.synthesize id declaration body) :=
  have declared := shape.modifyNode id (fun n => { n with kind := .synthesized declaration })
    (fun _ => rfl) fun _ => rfl
  have placed := declared.modifyNode id (fun n => { n with span := Span.emptyAt (u.declarationPlace body).1 })
    (fun _ => rfl) fun _ => rfl
  placed.of_nodes rfl

end KeepsShape

theorem lt_size_of_import? {id : NodeId} {i : ImportNode} (isImport : t.import? id = some i) :
    id.index < t.size := by
  by_contra outside
  have missing : t.node? id = none := Array.getElem?_eq_none (Nat.le_of_not_lt outside)
  simp [import?, kind?, missing] at isImport

theorem lt_size_of_blockBody {id : NodeId} {body : FunctionBody} (found : t.blockBody id = .ok body) :
    id.index < t.size := by
  by_contra outside
  have missing : t.node? id = none := Array.getElem?_eq_none (Nat.le_of_not_lt outside)
  simp [blockBody, function?, kind?, missing] at found

/-- No edit moves a node in the tree, and new nodes hang below old ones. -/
theorem KeepsShape.edit (shape : t.KeepsShape u) (nonempty : 0 < t.size) (e : Edit) : t.KeepsShape (u.edit e) := by
  refine edit_cases (motive := fun _ v => t.KeepsShape v) u (fun _ => shape) ?_ ?_ ?_ ?_ ?_ e
  · intro id name v edited
    obtain ⟨i, -, -, rfl⟩ := rename_eq edited
    exact (shape.modifyNode id (fun n => { n with kind := .identifier (i.renamed name) })
      (fun _ => rfl) fun _ => rfl).of_nodes rfl
  · intro importId names v edited
    obtain ⟨i, isImport, -, rfl⟩ := addImportNames_eq edited
    exact shape.foldl_addImportedName importId (lt_size_of_import? isImport) names
  · intro module names
    have added := shape.addNode (.importDeclaration { source := module }) root moduleScope u.importPlace.1
      (nonempty.trans_le shape.size_le)
    refine (added.foldl_addImportedName ⟨u.size⟩ ?_ names).of_nodes rfl
    rw [size_addNode]
    exact Nat.lt_succ_self _
  · intro function value setter callee id v edited
    obtain ⟨body, found, rfl, rfl⟩ := declareState_eq edited
    have statement := shape.addNode .statement function body.scope (body.opening + 1) (lt_size_of_blockBody found)
    have first := statement.addBinding ⟨u.size⟩ body.scope value .const
      (by rw [size_addNode]; exact Nat.lt_succ_self _)
    have second := first.addBinding ⟨u.size⟩ body.scope setter .const
      (by rw [size_addBinding, size_addNode]; exact Nat.lt_add_of_pos_right Nat.two_pos)
    exact second.synthesize ⟨u.size⟩ _ body
  · intro function name id v edited
    obtain ⟨body, found, rfl, rfl⟩ := declareNull_eq edited
    have statement := shape.addNode .statement function body.scope (body.opening + 1) (lt_size_of_blockBody found)
    have first := statement.addBinding ⟨u.size⟩ body.scope name .let
      (by rw [size_addNode]; exact Nat.lt_succ_self _)
    exact first.synthesize ⟨u.size⟩ _ body

theorem KeepsShape.editAll (shaped : t.IsShaped) (nonempty : 0 < t.size) (edits : List Edit) :
    t.KeepsShape (t.editAll edits) :=
  editAll_induction (motive := t.KeepsShape) (.refl shaped) (fun _ e shape => shape.edit nonempty e) edits

end Tree

end BindingRepair.Script
