/-
# Nodes that no edit has changed

A parsed tree bears no mark of an edit: no binding has a name of the source that it lost, and no import
has names that the source does not give it. New nodes and new statements keep it so.
-/

import BindingRepair.Proofs.WellScoped

namespace BindingRepair.Script

open Text

/-- The kind bears no mark of a renaming or of names added to an import. -/
def NodeKind.isUntouched : NodeKind → Bool
  | .identifier i => i.renamedFrom.isNone
  | .importDeclaration i => i.added.isEmpty
  | _ => true

/-- No node bears the mark of an edit. -/
def Untouched (nodes : Array Node) : Prop :=
  ∀ (i : Nat) (n : Node), nodes[i]? = some n → n.kind.isUntouched = true

namespace Untouched

variable {nodes : Array Node}

theorem empty : Untouched #[] :=
  fun _ _ found => by simp at found

theorem appendNode (untouched : Untouched nodes) {kind : NodeKind} (span : Span) (scope : ScopeId)
    (parent : Option NodeId) (plain : kind.isUntouched = true) :
    Untouched (Script.appendNode nodes kind span scope parent) := by
  intro i n found
  rw [getElem?_appendNode] at found
  split at found
  · rw [← Option.some.inj found]
    exact plain
  · split at found
    · obtain ⟨m, old, rfl⟩ := Option.map_eq_some_iff.mp found
      exact untouched i m old
    · exact untouched i n found

theorem modify (untouched : Untouched nodes) (index : Nat) {change : Node → Node}
    (plain : ∀ n, n.kind.isUntouched = true → (change n).kind.isUntouched = true) :
    Untouched (nodes.modify index change) := by
  intro i n found
  rw [Array.getElem?_modify] at found
  split at found
  · obtain ⟨m, old, rfl⟩ := Option.map_eq_some_iff.mp found
    exact plain m (untouched i m old)
  · exact untouched i n found

end Untouched

end BindingRepair.Script
