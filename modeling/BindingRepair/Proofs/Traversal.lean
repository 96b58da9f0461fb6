/-
# The walk as a traversal

A walk keeps the nodes still to come on a stack and counts its steps. In a tree whose nodes hang below
earlier ones it does what the recursive traversal does: every node below the first has one place among
those that are reached, so there are steps enough for all of them.
-/

import BindingRepair.Proofs.Shape
import BindingRepair.Script.Walk
import Mathlib.Data.List.Nodup
import Mathlib.Data.List.Perm.Subperm

namespace BindingRepair.Script

namespace Tree

variable {σ : Type} {t : Tree}

/-! ### Nodes below a node -/

theorem mem_childrenOf (shaped : t.IsShaped) {id c : NodeId} (inside : id.index < t.size) :
    c ∈ t.childrenOf id ↔ parentIn t.nodes c = some id := by
  have found : t.nodes[id.index]? = some t.nodes[id.index] := Array.getElem?_eq_getElem inside
  rw [childrenOf, node?, found, Option.map_some, Option.getD_some, shaped.children _ _ found, mem_childrenIn]

theorem parentIn_of_mem (shaped : t.IsShaped) {id c : NodeId} (child : c ∈ t.childrenOf id) :
    parentIn t.nodes c = some id := by
  refine (mem_childrenOf shaped ?_).mp child
  by_contra outside
  have missing : t.node? id = none := Array.getElem?_eq_none (Nat.le_of_not_lt outside)
  simp [childrenOf, missing] at child

/-- Children have numbers of their own, greater than that of their parent. -/
theorem lt_of_mem_childrenOf (shaped : t.IsShaped) {id c : NodeId} (child : c ∈ t.childrenOf id) :
    id.index < c.index ∧ c.index < t.size := by
  have parent := parentIn_of_mem shaped child
  obtain ⟨n, found, -⟩ := Option.bind_eq_some_iff.mp parent
  exact ⟨shaped.parent_lt c id parent, (Array.getElem?_eq_some_iff.mp found).choose⟩

/-- What holds of a node if it holds of its children holds of all nodes. -/
theorem IsShaped.induction (shaped : t.IsShaped) {motive : NodeId → Prop}
    (step : ∀ id, (∀ c ∈ t.childrenOf id, motive c) → motive id) (id : NodeId) : motive id := by
  refine step id fun c child => ?_
  have := lt_of_mem_childrenOf shaped child
  exact shaped.induction step c
termination_by t.size - id.index

/-- A node and the nodes below it, down to nodes that are not entered, in the order of the text. -/
def reached (t : Tree) (enters : NodeId → Bool) (id : NodeId) : List NodeId :=
  id :: if enters id then
    (t.childrenOf id).flatMap fun c =>
      if id.index < c.index ∧ c.index < t.size then t.reached enters c else []
  else []
termination_by t.size - id.index

/-- A node and all nodes below it. -/
abbrev below (t : Tree) (id : NodeId) : List NodeId :=
  t.reached (fun _ => true) id

section Reached

variable (shaped : t.IsShaped) (enters : NodeId → Bool)
include shaped

theorem reached_eq (id : NodeId) : t.reached enters id =
    id :: if enters id then (t.childrenOf id).flatMap (t.reached enters) else [] := by
  rw [reached]
  congr 2
  exact List.flatMap_congr fun c child => if_pos (lt_of_mem_childrenOf shaped child)

theorem mem_reached {id x : NodeId} : x ∈ t.reached enters id ↔
    x = id ∨ enters id = true ∧ ∃ c ∈ t.childrenOf id, x ∈ t.reached enters c := by
  rw [reached_eq shaped, List.mem_cons]
  cases enters id with
  | false => simp
  | true => simp [List.mem_flatMap]

theorem le_of_mem_reached {id x : NodeId} (here : x ∈ t.reached enters id) : id.index ≤ x.index := by
  induction id using shaped.induction with
  | step id ih =>
      rcases (mem_reached shaped enters).mp here with rfl | ⟨-, c, child, deeper⟩
      · exact Nat.le_refl _
      · exact (lt_of_mem_childrenOf shaped child).1.le.trans (ih c child deeper)

theorem lt_of_mem_reached {id x : NodeId} (inside : id.index < t.size) (here : x ∈ t.reached enters id) :
    x.index < t.size := by
  induction id using shaped.induction with
  | step id ih =>
      rcases (mem_reached shaped enters).mp here with rfl | ⟨-, c, child, deeper⟩
      · exact inside
      · exact ih c child (lt_of_mem_childrenOf shaped child).2 deeper

/-- With a node that is reached its parent is, up to the node where the search begins. -/
theorem parent_mem_reached {id x : NodeId} (here : x ∈ t.reached enters id) :
    x = id ∨ ∃ p ∈ t.reached enters id, parentIn t.nodes x = some p := by
  induction id using shaped.induction with
  | step id ih =>
      rcases (mem_reached shaped enters).mp here with same | ⟨entered, c, child, deeper⟩
      · exact .inl same
      · rcases ih c child deeper with rfl | ⟨p, above, parent⟩
        · exact .inr ⟨id, (mem_reached shaped enters).mpr (.inl rfl), parentIn_of_mem shaped child⟩
        · exact .inr ⟨p, (mem_reached shaped enters).mpr (.inr ⟨entered, c, child, above⟩), parent⟩

/-- Below two children of a node nothing is the same. -/
theorem disjoint_reached {id c c' : NodeId} (child : c ∈ t.childrenOf id) (child' : c' ∈ t.childrenOf id)
    (different : c ≠ c') : List.Disjoint (t.reached enters c) (t.reached enters c') := by
  have parent := parentIn_of_mem shaped child
  have parent' := parentIn_of_mem shaped child'
  -- A common node would have its parent in common, and so on up to a child of the node.
  have none (k : Nat) : ∀ x : NodeId, x.index = k → x ∈ t.reached enters c → x ∉ t.reached enters c' := by
    induction k using Nat.strongRecOn with
    | _ k ih =>
        rintro x rfl here here'
        have apart {c c' : NodeId} (parent : parentIn t.nodes c = some id) (child' : c' ∈ t.childrenOf id)
            (different : c ≠ c') (here' : c ∈ t.reached enters c') : False := by
          rcases parent_mem_reached shaped enters here' with same | ⟨p, above, is⟩
          · exact different same
          · obtain rfl := Option.some.inj (parent.symm.trans is)
            exact Nat.not_lt.mpr (le_of_mem_reached shaped enters above) (lt_of_mem_childrenOf shaped child').1
        rcases parent_mem_reached shaped enters here with rfl | ⟨p, above, is⟩
        · exact apart parent child' different here'
        · rcases parent_mem_reached shaped enters here' with rfl | ⟨p', above', is'⟩
          · exact apart parent' child (Ne.symm different) here
          · obtain rfl := Option.some.inj (is.symm.trans is')
            exact ih p.index (shaped.parent_lt x p is) p rfl above above'
  exact fun x here here' => none x.index x rfl here here'

theorem nodup_childrenOf (id : NodeId) : (t.childrenOf id).Nodup := by
  unfold childrenOf
  cases found : t.node? id with
  | none => exact List.nodup_nil
  | some n =>
      rw [Option.map_some, Option.getD_some, shaped.children _ n found]
      refine (pairwise_childrenIn t.nodes _).imp ?_
      rintro a b before rfl
      exact Nat.lt_irrefl _ before

/-- Every node is reached once at most. -/
theorem nodup_reached (id : NodeId) : (t.reached enters id).Nodup := by
  induction id using shaped.induction with
  | step id ih =>
      have children : ((t.childrenOf id).flatMap (t.reached enters)).Nodup := by
        refine List.nodup_flatMap.mpr ⟨ih, (nodup_childrenOf shaped id).imp_of_mem ?_⟩
        exact fun child child' different => disjoint_reached shaped enters child child' different
      rw [reached_eq shaped]
      split
      · refine List.nodup_cons.mpr ⟨fun again => ?_, children⟩
        obtain ⟨c, child, deeper⟩ := List.mem_flatMap.mp again
        exact Nat.not_lt.mpr (le_of_mem_reached shaped enters deeper) (lt_of_mem_childrenOf shaped child).1
      · exact List.pairwise_singleton _ id

theorem length_reached_le {id : NodeId} (inside : id.index < t.size) :
    (t.reached enters id).length ≤ t.size := by
  have numbers : ((t.reached enters id).map NodeId.index).Nodup :=
    (nodup_reached shaped enters id).map fun ⟨_⟩ ⟨_⟩ same => congrArg NodeId.mk same
  have known : (t.reached enters id).map NodeId.index ⊆ List.range t.size := by
    intro i here
    obtain ⟨x, listed, rfl⟩ := List.mem_map.mp here
    exact List.mem_range.mpr (lt_of_mem_reached shaped enters inside listed)
  simpa using (List.subperm_of_subset numbers known).length_le

end Reached

/-! ### The traversal -/

/-- The traversal below a node that a visitor asks for, and the last state of the visitor. If it has stopped
the traversal, this is an error. -/
def traverse (t : Tree) (v : Visitor σ) (id : NodeId) (s : σ) : Except σ σ :=
  match t.node? id with
  | none => .ok s
  | some node =>
    match v.enter id node s with
    | (.stop, s) => .error s
    | (.skip, s) => .ok (v.leave id node s)
    | (.descend, s) => do
      let s ← node.children.toList.foldlM (fun s c =>
        if id.index < c.index ∧ c.index < t.size then t.traverse v c s else pure s) s
      return v.leave id node s
termination_by t.size - id.index

/-- The last state of a traversal, stopped or not. -/
def lastState : Except σ σ → σ
  | .ok s | .error s => s

/-- A run over a list is told by what is done at its members. -/
theorem foldlM_congr {α β : Type} {m : Type → Type} [Monad m] {f g : β → α → m β} {l : List α}
    (same : ∀ a ∈ l, ∀ b, f b a = g b a) (b : β) : l.foldlM f b = l.foldlM g b := by
  induction l generalizing b with
  | nil => rfl
  | cons a l ih =>
      rw [List.foldlM_cons, List.foldlM_cons, same a List.mem_cons_self]
      exact congrArg _ (funext fun b => ih (fun a here => same a (List.mem_cons_of_mem _ here)) b)

theorem traverse_eq (shaped : t.IsShaped) (v : Visitor σ) {id : NodeId} {node : Node}
    (found : t.node? id = some node) (s : σ) : t.traverse v id s =
      match v.enter id node s with
      | (.stop, s) => .error s
      | (.skip, s) => .ok (v.leave id node s)
      | (.descend, s) => do
        let s ← (t.childrenOf id).foldlM (fun s c => t.traverse v c s) s
        return v.leave id node s := by
  have children : node.children.toList = t.childrenOf id := by
    rw [childrenOf, found]
    rfl
  have guarded (s : σ) : (t.childrenOf id).foldlM (fun s c =>
      if id.index < c.index ∧ c.index < t.size then t.traverse v c s else pure s) s =
      (t.childrenOf id).foldlM (fun s c => t.traverse v c s) s :=
    foldlM_congr (fun c child _ => if_pos (lt_of_mem_childrenOf shaped child)) s
  rw [traverse, found]
  simp only [children, guarded]

theorem traverse_of_missing {v : Visitor σ} {id : NodeId} (missing : t.node? id = none) (s : σ) :
    t.traverse v id s = .ok s := by
  rw [traverse, missing]

/-! ### The walk -/

section Walk

variable (t : Tree) (v : Visitor σ)

/-- A walk with steps to do, `weight` of them at most in pairs, goes on as a traversal tells. -/
def WalksAs (todo : List WalkStep) (weight : Nat) (traversal : σ → Except σ σ) : Prop :=
  ∀ (n : Nat) (steps : List WalkStep) (s : σ), 2 * weight ≤ n →
    ∃ left, n ≤ left + 2 * weight ∧ t.walkSteps v n (todo ++ steps) s =
      match traversal s with
      | .error s => s
      | .ok s => t.walkSteps v left steps s

variable {t v}

/-- Steps to the nodes of a list are done one after the other, unless one of them stops the walk. -/
theorem walksAs_list {ids : List NodeId}
    (each : ∀ id ∈ ids, t.WalksAs v [.enter id] (t.below id).length (t.traverse v id)) :
    t.WalksAs v (ids.map .enter) (ids.flatMap t.below).length
      fun s => ids.foldlM (fun s id => t.traverse v id s) s := by
  induction ids with
  | nil => exact fun n steps s _ => ⟨n, Nat.le_refl _, rfl⟩
  | cons id ids ih =>
      intro n steps s enough
      rw [List.flatMap_cons, List.length_append] at enough ⊢
      obtain ⟨left, most, first⟩ := each id List.mem_cons_self n (ids.map .enter ++ steps) s (by omega)
      simp only [List.foldlM_cons]
      rw [List.map_cons, List.cons_append, ← List.singleton_append, first]
      cases t.traverse v id s with
      | error s => exact ⟨n, by omega, rfl⟩
      | ok s =>
          obtain ⟨left', most', rest⟩ :=
            ih (fun id here => each id (List.mem_cons_of_mem _ here)) left steps s (by omega)
          exact ⟨left', by omega, rest⟩

/-- The steps of a walk are those of the recursive traversal: a node takes two, and so do the nodes below. -/
theorem walksAs_enter (shaped : t.IsShaped) (id : NodeId) :
    t.WalksAs v [.enter id] (t.below id).length (t.traverse v id) := by
  induction id using shaped.induction with
  | step id ih =>
      intro n steps s enough
      have length : (t.below id).length = ((t.childrenOf id).flatMap t.below).length + 1 := by
        rw [below, reached_eq shaped]
        rfl
      rw [length] at enough ⊢
      obtain ⟨k, rfl⟩ : ∃ k, n = k + 1 := ⟨n - 1, by omega⟩
      rw [List.singleton_append, walkSteps]
      cases found : t.node? id with
      | none =>
          rw [traverse_of_missing found]
          exact ⟨k, by omega, rfl⟩
      | some node =>
          rw [traverse_eq shaped v found]
          dsimp only
          rcases v.enter id node s with ⟨visit, s⟩
          cases visit with
          | stop => exact ⟨k, by omega, rfl⟩
          | skip => exact ⟨k, by omega, rfl⟩
          | descend =>
              obtain ⟨left, most, children⟩ := walksAs_list ih k (.leave id :: steps) s (by omega)
              have listed : node.children.toList = t.childrenOf id := by
                rw [childrenOf, found]
                rfl
              dsimp only at children ⊢
              rw [listed, children]
              cases (t.childrenOf id).foldlM (fun s id => t.traverse v id s) s with
              | error s => exact ⟨left, by omega, rfl⟩
              | ok s =>
                  obtain ⟨m, rfl⟩ : ∃ m, left = m + 1 := ⟨left - 1, by omega⟩
                  refine ⟨m, by omega, ?_⟩
                  simp only [walkSteps, found]
                  rfl

/-- A walk does what the recursive traversal does. -/
theorem walk_eq_traverse (shaped : t.IsShaped) (start : NodeId) (s : σ) :
    t.walk start v s = lastState (t.traverse v start s) := by
  cases found : t.node? start with
  | none =>
      rw [traverse_of_missing found, walk, walkSteps, found]
      dsimp only
      cases 2 * t.size with
      | zero => rfl
      | succ n => rfl
  | some node =>
      have inside : start.index < t.size := (Array.getElem?_eq_some_iff.mp found).choose
      have enough : 2 * (t.below start).length ≤ 2 * t.size + 1 := by
        have fits : (t.below start).length ≤ t.size := length_reached_le shaped _ inside
        omega
      obtain ⟨left, -, walked⟩ := walksAs_enter (v := v) shaped start (2 * t.size + 1) [] s enough
      rw [walk, ← List.append_nil [WalkStep.enter start], walked]
      cases t.traverse v start s with
      | error s => rfl
      | ok s =>
          cases left with
          | zero => rfl
          | succ n => rfl

end Walk

end Tree

end BindingRepair.Script
