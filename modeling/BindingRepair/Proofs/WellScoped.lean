/-
# Nodes and scopes that exist

A tree refers to its nodes and scopes by number. `WellScoped` says that every number in it is one of a
node or scope that exists, that the scopes are a forest, and that the references are identifiers.
Adding nodes and names keeps it.
-/

import BindingRepair.Proofs.ScopeForest
import BindingRepair.Script.Tree

namespace BindingRepair.Script

open Text

namespace NodeKind

def isIdentifier : NodeKind → Bool
  | identifier _ => true
  | _ => false

/-- The nodes that a kind names. -/
def named : NodeKind → List NodeId
  | importDeclaration i => i.localNodes
  | declarator d => d.name.toList ++ d.function.toList
  | function f => f.name.toList
  | synthesized (.state value setter _) => [value, setter]
  | synthesized (.null name) => [name]
  | _ => []

/-- The scope of the body of a function. -/
def bodyScope? : NodeKind → Option ScopeId
  | function f => f.body.map (·.scope)
  | _ => none

theorem not_mem_named_identifier (i : IdentifierNode) (c : NodeId) : c ∉ (identifier i).named :=
  List.not_mem_nil

theorem bodyScope?_identifier (i : IdentifierNode) (s : ScopeId) :
    (identifier i).bodyScope? ≠ some s :=
  (Option.some_ne_none s).symm

end NodeKind

/-! ### One more node -/

section AppendNode

variable (nodes : Array Node) (kind : NodeKind) (span : Span) (scope : ScopeId)
  (parent : Option NodeId)

@[simp]
theorem size_appendNode : (appendNode nodes kind span scope parent).size = nodes.size + 1 := by
  unfold appendNode
  dsimp only
  split <;> simp

theorem getElem?_appendNode (i : Nat) :
    (appendNode nodes kind span scope parent)[i]? =
      if i = nodes.size then
        some { kind, span, scope, parent
               children := if parent = some ⟨i⟩ then #[⟨i⟩] else #[] }
      else if parent = some ⟨i⟩ then
        nodes[i]?.map fun n => { n with children := n.children.push ⟨nodes.size⟩ }
      else nodes[i]? := by
  unfold appendNode
  dsimp only
  cases parent with
  | none => simp [Array.getElem?_push]
  | some p =>
      by_cases here : p.index = i
      · have same : p = ⟨i⟩ := by cases p; simp_all
        subst same
        by_cases last : i = nodes.size
        · subst last
          rw [Array.getElem?_modify]
          simp
        · simp [last, Array.getElem?_modify, Array.getElem?_push]
      · have different : ¬p = ⟨i⟩ := fun equal => here (by rw [equal])
        simp [Array.getElem?_modify, Array.getElem?_push, here, different]

end AppendNode

/-- The node lies in a scope that exists, and refers only to nodes and scopes that exist. -/
structure Node.InRange (n : Node) (nodes scopes : Nat) : Prop where
  scope : n.scope.index < scopes
  children : ∀ c ∈ n.children, c.index < nodes
  named : ∀ c ∈ n.kind.named, c.index < nodes
  body : ∀ s, n.kind.bodyScope? = some s → s.index < scopes

theorem Node.InRange.mono {n : Node} {nodes scopes nodes' scopes' : Nat}
    (inRange : n.InRange nodes scopes) (moreNodes : nodes ≤ nodes') (moreScopes : scopes ≤ scopes') :
    n.InRange nodes' scopes' where
  scope := Nat.lt_of_lt_of_le inRange.scope moreScopes
  children c here := Nat.lt_of_lt_of_le (inRange.children c here) moreNodes
  named c here := Nat.lt_of_lt_of_le (inRange.named c here) moreNodes
  body s here := Nat.lt_of_lt_of_le (inRange.body s here) moreScopes

/-- The node is an identifier that declares nothing. -/
def IsReference (nodes : Array Node) (id : NodeId) : Prop :=
  ∃ n i, nodes[id.index]? = some n ∧ n.kind = .identifier i ∧ i.role = .reference

structure WellScoped (nodes : Array Node) (scopes : ScopeForest) (references : Array NodeId) :
    Prop where
  forest : scopes.WellFormed
  inRange : ∀ (i : Nat) (n : Node), nodes[i]? = some n → n.InRange nodes.size scopes.size
  isReference : ∀ r ∈ references, IsReference nodes r

namespace WellScoped

variable {nodes : Array Node} {scopes : ScopeForest} {references : Array NodeId}
  (wellScoped : WellScoped nodes scopes references)
include wellScoped

theorem lt_size {r : NodeId} (here : r ∈ references) : r.index < nodes.size := by
  obtain ⟨n, i, found, -, -⟩ := wellScoped.isReference r here
  exact (Array.getElem?_eq_some_iff.mp found).choose

/-- Names may be declared and forgotten. -/
theorem of_sameShape {scopes' : ScopeForest} (same : scopes.SameShape scopes') :
    WellScoped nodes scopes' references where
  forest := wellScoped.forest.of_sameShape same
  inRange i n found := by
    rw [same.size_eq]
    exact wellScoped.inRange i n found
  isReference := wellScoped.isReference

theorem appendNode (kind : NodeKind) (span : Span) (scope : ScopeId) (parent : Option NodeId)
    (inScope : scope.index < scopes.size) (named : ∀ c ∈ kind.named, c.index < nodes.size)
    (body : ∀ s, kind.bodyScope? = some s → s.index < scopes.size) :
    WellScoped (appendNode nodes kind span scope parent) scopes references where
  forest := wellScoped.forest
  inRange i n found := by
    rw [getElem?_appendNode] at found
    rw [size_appendNode]
    split at found
    · rename_i last
      cases found
      refine ⟨inScope, fun c here => ?_, fun c here => Nat.lt_succ_of_lt (named c here), body⟩
      dsimp only at here
      split at here
      · rw [Array.mem_singleton] at here
        rw [here, last]
        exact Nat.lt_succ_self _
      · simp at here
    · split at found
      · obtain ⟨old, foundOld, rfl⟩ := Option.map_eq_some_iff.mp found
        have before := (wellScoped.inRange i old foundOld).mono (Nat.le_succ _) (Nat.le_refl _)
        refine ⟨before.scope, fun c here => ?_, before.named, before.body⟩
        rcases Array.mem_push.mp here with inOld | rfl
        · exact before.children c inOld
        · exact Nat.lt_succ_self _
      · exact (wellScoped.inRange i n found).mono (Nat.le_succ _) (Nat.le_refl _)
  isReference r here := by
    obtain ⟨n, i, found, kind, role⟩ := wellScoped.isReference r here
    have old : r.index ≠ nodes.size := Nat.ne_of_lt (wellScoped.lt_size here)
    unfold IsReference
    rw [getElem?_appendNode, if_neg old, found]
    split
    · exact ⟨_, i, rfl, kind, role⟩
    · exact ⟨n, i, rfl, kind, role⟩

/-- A node may change if it stays in range and is no reference. -/
theorem modify {change : Node → Node} (id : NodeId)
    (inRange : ∀ n, nodes[id.index]? = some n → n.InRange nodes.size scopes.size →
      (change n).InRange nodes.size scopes.size)
    (isReference : ∀ n i, nodes[id.index]? = some n → n.kind = .identifier i →
      i.role = .reference → (change n).kind = n.kind) :
    WellScoped (nodes.modify id.index change) scopes references where
  forest := wellScoped.forest
  inRange i n found := by
    rw [Array.size_modify]
    rw [Array.getElem?_modify] at found
    split at found
    · rename_i here
      obtain ⟨old, foundOld, rfl⟩ := Option.map_eq_some_iff.mp found
      rw [← here] at foundOld
      exact inRange old foundOld (wellScoped.inRange _ old foundOld)
    · exact wellScoped.inRange i n found
  isReference r here := by
    obtain ⟨n, i, found, kind, role⟩ := wellScoped.isReference r here
    unfold IsReference
    rw [Array.getElem?_modify, found]
    split
    · rename_i same
      exact ⟨_, i, rfl, (isReference n i (same ▸ found) kind role).trans kind, role⟩
    · exact ⟨n, i, rfl, kind, role⟩

theorem refer {id : NodeId} (refers : IsReference nodes id) :
    WellScoped nodes scopes (references.push id) where
  forest := wellScoped.forest
  inRange := wellScoped.inRange
  isReference r here := by
    rcases Array.mem_push.mp here with old | rfl
    · exact wellScoped.isReference r old
    · exact refers

theorem addScope (kind : ScopeKind) {parent : ScopeId} (inside : parent.index < scopes.size) :
    WellScoped nodes (scopes.add kind (some parent)).2 references where
  forest := wellScoped.forest.add kind inside
  inRange i n found := by
    rw [ScopeForest.size_add]
    exact (wellScoped.inRange i n found).mono (Nat.le_refl _) (Nat.le_succ _)
  isReference := wellScoped.isReference

end WellScoped

end BindingRepair.Script
