/-
# What edits leave alone

No edit changes the text of a tree or moves a node that is in it. New nodes are not in the text: their
spans are empty.
-/

import BindingRepair.Proofs.Component
import BindingRepair.Proofs.History

namespace BindingRepair.Script

open Text

namespace Tree

/-- The trees have the same source. -/
structure SameText (t u : Tree) : Prop where
  source : u.source = t.source
  lines : u.lines = t.lines
  style : u.style = t.style

theorem SameText.refl (t : Tree) : t.SameText t :=
  ⟨rfl, rfl, rfl⟩

theorem SameText.trans {t u v : Tree} (first : t.SameText u) (second : u.SameText v) : t.SameText v :=
  ⟨second.source.trans first.source, second.lines.trans first.lines, second.style.trans first.style⟩

/-- Where a declaration goes is told by the source alone. -/
theorem SameText.declarationPlace {t u : Tree} (same : t.SameText u) (body : FunctionBody) :
    u.declarationPlace body = t.declarationPlace body := by
  simp only [Tree.declarationPlace, Tree.newline, endOfLineTrivia, cursorAt, same.source, same.lines,
    same.style]

theorem SameText.endOfLineTrivia {t u : Tree} (same : t.SameText u) (offset : Nat) :
    u.endOfLineTrivia offset = t.endOfLineTrivia offset := by
  rw [Tree.endOfLineTrivia, Tree.endOfLineTrivia, cursorAt, cursorAt, same.source]

theorem SameText.offset? {t u : Tree} (same : t.SameText u) (position : Position) :
    u.offset? position = t.offset? position := by
  rw [Tree.offset?, Tree.offset?, same.lines, same.source]

/-- The text is the same, the nodes that there were are where they were, and those that have come are
nowhere in the text. -/
structure KeepsPlaces (t u : Tree) : Prop where
  text : t.SameText u
  size_le : t.size ≤ u.size
  spanOf : ∀ id, id.index < t.size → u.spanOf id = t.spanOf id
  isEmpty : ∀ id, t.size ≤ id.index → (u.spanOf id).isEmpty = true

theorem spanOf_of_size_le {t : Tree} {id : NodeId} (outside : t.size ≤ id.index) :
    t.spanOf id = ⟨0, 0⟩ := by
  have missing : t.node? id = none := Array.getElem?_eq_none outside
  rw [spanOf, missing]
  rfl

namespace KeepsPlaces

variable {t u v : Tree}

/-- The nodes are the same in number, and where they were. -/
theorem of_spanOf (text : t.SameText u) (size : u.size = t.size) (same : ∀ id, u.spanOf id = t.spanOf id) :
    t.KeepsPlaces u where
  text := text
  size_le := size.ge
  spanOf id _ := same id
  isEmpty id outside := by
    rw [same, spanOf_of_size_le outside]
    rfl

theorem refl (t : Tree) : t.KeepsPlaces t :=
  of_spanOf (.refl t) rfl fun _ => rfl

theorem trans (first : t.KeepsPlaces u) (second : u.KeepsPlaces v) : t.KeepsPlaces v where
  text := first.text.trans second.text
  size_le := first.size_le.trans second.size_le
  spanOf id bounded :=
    (second.spanOf id (bounded.trans_le first.size_le)).trans (first.spanOf id bounded)
  isEmpty id outside := by
    rcases Nat.lt_or_ge id.index u.size with inside | outside'
    · rw [second.spanOf id inside]
      exact first.isEmpty id outside
    · exact second.isEmpty id outside'

end KeepsPlaces

variable {t u : Tree}

theorem keepsPlaces_addNode (t : Tree) (kind : NodeKind) (parent : NodeId) (scope : ScopeId)
    (offset : Nat) : t.KeepsPlaces (t.addNode kind parent scope offset).2 where
  text := ⟨rfl, rfl, rfl⟩
  size_le := by simp
  spanOf id bounded := by
    rw [Tree.spanOf, node?_addNode, if_neg (Nat.ne_of_lt bounded), Tree.spanOf]
    split
    · cases t.node? id <;> rfl
    · rfl
  isEmpty id outside := by
    rcases Nat.eq_or_lt_of_le outside with last | beyond
    · rw [Tree.spanOf, node?_addNode, if_pos last.symm]
      simp [Span.isEmpty, Span.emptyAt]
    · rw [spanOf_of_size_le ((size_addNode ..).trans_le beyond)]
      rfl

theorem keepsPlaces_modifyNode (t : Tree) (id : NodeId) {change : Node → Node}
    (span : ∀ n, (change n).span = n.span) : t.KeepsPlaces (t.modifyNode id change) := by
  refine .of_spanOf ⟨rfl, rfl, rfl⟩ Array.size_modify fun other => ?_
  rw [Tree.spanOf, node?_modifyNode, Tree.spanOf]
  split
  · cases t.node? other with
    | none => rfl
    | some n => exact span n
  · rfl

theorem keepsPlaces_addBinding (t : Tree) (parent : NodeId) (scope : ScopeId) (name : String)
    (kind : BindingKind) : t.KeepsPlaces (t.addBinding parent scope name kind).2 :=
  (t.keepsPlaces_addNode _ parent scope _).trans (.of_spanOf ⟨rfl, rfl, rfl⟩ rfl fun _ => rfl)

theorem keepsPlaces_foldl_addImportedName (t : Tree) (importId : NodeId) (names : List String) :
    t.KeepsPlaces (names.foldl (·.addImportedName importId) t) := by
  induction names generalizing t with
  | nil => exact .refl t
  | cons name names ih =>
      refine KeepsPlaces.trans ?_ (ih _)
      exact (t.keepsPlaces_addBinding importId moduleScope name .imported).trans
        (keepsPlaces_modifyNode _ importId fun _ => rfl)

@[simp]
theorem size_synthesize (t : Tree) (id : NodeId) (declaration : SynthesizedDeclaration)
    (body : FunctionBody) : (t.synthesize id declaration body).size = t.size :=
  Array.size_modify.trans Array.size_modify

@[simp]
theorem scopes_synthesize (t : Tree) (id : NodeId) (declaration : SynthesizedDeclaration)
    (body : FunctionBody) : (t.synthesize id declaration body).scopes = t.scopes :=
  rfl

theorem node?_synthesize (t : Tree) (id other : NodeId) (declaration : SynthesizedDeclaration)
    (body : FunctionBody) : (t.synthesize id declaration body).node? other =
      if id = other then
        (t.node? other).map fun n =>
          { n with kind := .synthesized declaration, span := Span.emptyAt (t.declarationPlace body).1 }
      else t.node? other := by
  have placed := (t.modifyNode id fun n => { n with kind := .synthesized declaration }).node?_modifyNode
    id other fun n => { n with span := Span.emptyAt (t.declarationPlace body).1 }
  refine Eq.trans placed ?_
  rw [node?_modifyNode]
  split
  · cases t.node? other <;> rfl
  · rfl

/-- A node that is not in the text may be placed anywhere in it. -/
theorem KeepsPlaces.synthesize (places : t.KeepsPlaces u) {id : NodeId} (new : t.size ≤ id.index)
    (declaration : SynthesizedDeclaration) (body : FunctionBody) :
    t.KeepsPlaces (u.synthesize id declaration body) where
  text := places.text.trans ⟨rfl, rfl, rfl⟩
  size_le := places.size_le.trans_eq (size_synthesize ..).symm
  spanOf other bounded := by
    have different : id ≠ other := by
      rintro rfl
      exact Nat.not_lt.mpr new bounded
    rw [Tree.spanOf, node?_synthesize, if_neg different, ← Tree.spanOf, places.spanOf other bounded]
  isEmpty other outside := by
    rw [Tree.spanOf, node?_synthesize]
    split
    · cases u.node? other with
      | none => rfl
      | some n => simp [Span.isEmpty, Span.emptyAt]
    · exact places.isEmpty other outside

/-- No edit moves a node. -/
theorem keepsPlaces_edit (t : Tree) (e : Edit) : t.KeepsPlaces (t.edit e) := by
  refine edit_cases (motive := fun _ u => t.KeepsPlaces u) t (fun _ => .refl t) ?_ ?_ ?_ ?_ ?_ e
  · intro id name u edited
    obtain ⟨i, -, -, rfl⟩ := rename_eq edited
    have renamed : t.KeepsPlaces
        (t.modifyNode id fun n => { n with kind := .identifier (i.renamed name) }) :=
      t.keepsPlaces_modifyNode id fun _ => rfl
    exact renamed.trans (.of_spanOf ⟨rfl, rfl, rfl⟩ rfl fun _ => rfl)
  · intro importId names u edited
    obtain ⟨-, -, -, rfl⟩ := addImportNames_eq edited
    exact t.keepsPlaces_foldl_addImportedName importId names
  · intro module names
    exact ((t.keepsPlaces_addNode _ root moduleScope _).trans
      (keepsPlaces_foldl_addImportedName _ ⟨t.size⟩ names)).trans
      (.of_spanOf ⟨rfl, rfl, rfl⟩ rfl fun _ => rfl)
  · intro function value setter callee id u edited
    obtain ⟨body, -, rfl, rfl⟩ := declareState_eq edited
    refine KeepsPlaces.synthesize ?_ (Nat.le_refl t.size) _ body
    exact ((t.keepsPlaces_addNode .statement function body.scope _).trans
      (keepsPlaces_addBinding _ ⟨t.size⟩ body.scope value .const)).trans
      (keepsPlaces_addBinding _ ⟨t.size⟩ body.scope setter .const)
  · intro function name id u edited
    obtain ⟨body, -, rfl, rfl⟩ := declareNull_eq edited
    refine KeepsPlaces.synthesize ?_ (Nat.le_refl t.size) _ body
    exact (t.keepsPlaces_addNode .statement function body.scope _).trans
      (keepsPlaces_addBinding _ ⟨t.size⟩ body.scope name .let)

end Tree

end BindingRepair.Script
