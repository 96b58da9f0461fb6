/-
# Resolution in a scope forest

Names are looked up along the chain of scopes around their use. In a well-formed forest every chain
ends at the module, so a new binding in a scope changes only the uses inside it that found nothing
before, and taking away a binding that no use found changes no use at all.
-/

import BindingRepair.Script.Scope
import Mathlib.Data.List.Find

namespace BindingRepair.Script

namespace NameTable

/-- Only the added name can become bound. -/
theorem binds_add (name other : String) (node : NodeId) (table : NameTable) :
    (add name node table).binds other = (decide (other = name) || table.binds other) := by
  induction table with
  | nil =>
      by_cases same : other = name
      · simp [add, binds, same]
      · simp [add, binds, List.lookup_cons, same, beq_false_of_ne same]
  | cons entry rest ih =>
      obtain ⟨n, nodes⟩ := entry
      simp only [binds] at ih
      unfold add
      by_cases here : name = n
      · subst here
        by_cases same : other = name
        · simp [binds, same]
        · simp [binds, List.lookup_cons, same, beq_false_of_ne same]
      · rw [if_neg here]
        split
        · by_cases same : other = name
          · simp [binds, List.lookup_cons, same]
          · simp [binds, List.lookup_cons, same, beq_false_of_ne same]
        · by_cases first : other = n
          · simp [binds, first]
          · simpa [binds, List.lookup_cons, beq_false_of_ne first] using ih

/-- Names other than the removed one stay as they are. -/
theorem binds_remove_of_ne {name other : String} (node : NodeId) (table : NameTable)
    (different : other ≠ name) : (remove name node table).binds other = table.binds other := by
  induction table with
  | nil => rfl
  | cons entry rest ih =>
      obtain ⟨n, nodes⟩ := entry
      simp only [binds] at ih
      unfold remove
      by_cases here : name = n
      · subst here
        rw [if_pos rfl]
        dsimp only
        split <;> simp [binds, List.lookup_cons, beq_false_of_ne different]
      · rw [if_neg here]
        by_cases first : other = n
        · simp [binds, first]
        · simpa [binds, List.lookup_cons, beq_false_of_ne first] using ih

/-- Removing a node binds no name. -/
theorem binds_of_binds_remove {name other : String} {node : NodeId} {table : NameTable}
    (bound : (remove name node table).binds other = true) : table.binds other = true := by
  by_cases different : other = name
  · induction table with
    | nil => exact bound
    | cons entry rest ih =>
        obtain ⟨n, nodes⟩ := entry
        simp only [binds] at ih
        unfold remove at bound
        by_cases here : name = n
        · simp [binds, different, here]
        · rw [if_neg here] at bound
          have first : other ≠ n := fun equal => here (different.symm.trans equal)
          simp only [binds, List.lookup_cons, beq_false_of_ne first] at bound ⊢
          exact ih bound
  · rwa [binds_remove_of_ne node table different] at bound

end NameTable

namespace ScopeForest

variable {f : ScopeForest}

/-- Every scope but the first lies in an earlier one, which lists it. -/
structure WellFormed (f : ScopeForest) : Prop where
  nonempty : 0 < f.size
  parent?_isSome : ∀ s : ScopeId, 0 < s.index → s.index < f.size → (f.parent? s).isSome
  parent?_lt : ∀ s p : ScopeId, f.parent? s = some p → p.index < s.index
  mem_childrenOf : ∀ s p : ScopeId, f.parent? s = some p → s ∈ f.childrenOf p

/-- Two forests have the same scopes in the same places; only the names may differ. -/
structure SameShape (f g : ScopeForest) : Prop where
  size_eq : g.size = f.size
  parent?_eq : ∀ s, g.parent? s = f.parent? s
  childrenOf_eq : ∀ s, g.childrenOf s = f.childrenOf s

theorem SameShape.refl (f : ScopeForest) : SameShape f f :=
  ⟨rfl, fun _ => rfl, fun _ => rfl⟩

theorem SameShape.trans {f g h : ScopeForest} (first : SameShape f g) (second : SameShape g h) :
    SameShape f h where
  size_eq := second.size_eq.trans first.size_eq
  parent?_eq s := (second.parent?_eq s).trans (first.parent?_eq s)
  childrenOf_eq s := (second.childrenOf_eq s).trans (first.childrenOf_eq s)

theorem WellFormed.of_sameShape {f g : ScopeForest} (wellFormed : f.WellFormed)
    (same : SameShape f g) : g.WellFormed where
  nonempty := same.size_eq ▸ wellFormed.nonempty
  parent?_isSome s positive bounded := by
    rw [same.parent?_eq]
    exact wellFormed.parent?_isSome s positive (same.size_eq ▸ bounded)
  parent?_lt s p parent := wellFormed.parent?_lt s p (same.parent?_eq s ▸ parent)
  mem_childrenOf s p parent := by
    rw [same.childrenOf_eq]
    exact wellFormed.mem_childrenOf s p (same.parent?_eq s ▸ parent)

/-! ### Changing the names of one scope -/

theorem get?_modify (f : ScopeForest) (s t : ScopeId) (change : Scope → Scope) :
    (f.modify s change).get? t = if s = t then (f.get? t).map change else f.get? t := by
  unfold get? modify
  rw [Array.getElem?_modify]
  by_cases same : s = t
  · simp [same]
  · have different : s.index ≠ t.index := fun equal => same (by cases s; cases t; simp_all)
    simp [same, different]

/-- Changes of the bindings of a scope leave the shape alone. -/
theorem sameShape_modify (f : ScopeForest) (s : ScopeId) {change : Scope → Scope}
    (parent : ∀ x, (change x).parent = x.parent) (children : ∀ x, (change x).children = x.children) :
    SameShape f (f.modify s change) where
  size_eq := by simp [size, modify]
  parent?_eq t := by
    unfold parent?
    rw [get?_modify]
    split
    · cases f.get? t <;> simp [parent]
    · rfl
  childrenOf_eq t := by
    unfold childrenOf
    rw [get?_modify]
    split
    · cases f.get? t <;> simp [children]
    · rfl

theorem sameShape_declare (f : ScopeForest) (s : ScopeId) (name : String) (node : NodeId) :
    SameShape f (f.declare s name node) :=
  f.sameShape_modify s (fun _ => rfl) fun _ => rfl

theorem sameShape_undeclare (f : ScopeForest) (s : ScopeId) (name : String) (node : NodeId) :
    SameShape f (f.undeclare s name node) :=
  f.sameShape_modify s (fun _ => rfl) fun _ => rfl

@[simp]
theorem size_add (f : ScopeForest) (kind : ScopeKind) (parent : Option ScopeId) :
    (f.add kind parent).2.size = f.size + 1 := by
  unfold add size modify
  cases parent <;> simp

theorem get?_add (f : ScopeForest) (kind : ScopeKind) {p : ScopeId} (inside : p.index < f.size)
    (s : ScopeId) :
    (f.add kind (some p)).2.get? s =
      if s.index = f.size then some { kind, parent := some p, children := [], bindings := [] }
      else if s = p then
        (f.get? s).map fun x => { x with children := x.children ++ [⟨f.size⟩] }
      else f.get? s := by
  unfold add
  dsimp only
  rw [get?_modify]
  have pushed : get? ⟨f.scopes.push { kind, parent := some p, children := [], bindings := [] }⟩ s =
      if s.index = f.size then some { kind, parent := some p, children := [], bindings := [] }
      else f.get? s := by
    unfold get? size
    rw [Array.getElem?_push]
  by_cases last : s.index = f.size
  · have different : p ≠ s := by
      rintro rfl
      exact Nat.ne_of_lt inside last
    rw [if_neg different, pushed]
    simp [last]
  · rw [pushed, if_neg last, if_neg last]
    by_cases same : p = s
    · rw [if_pos same, if_pos same.symm]
    · rw [if_neg same, if_neg (Ne.symm same)]

/-- A new scope inside one that exists leaves the scopes a forest. -/
theorem WellFormed.add {f : ScopeForest} (wellFormed : f.WellFormed) (kind : ScopeKind)
    {p : ScopeId} (inside : p.index < f.size) : (f.add kind (some p)).2.WellFormed := by
  have parent_add (s : ScopeId) : (f.add kind (some p)).2.parent? s =
      if s.index = f.size then some p else f.parent? s := by
    unfold parent?
    rw [get?_add f kind inside]
    split
    · rfl
    · split
      · cases f.get? s <;> rfl
      · rfl
  constructor
  · rw [size_add]
    exact Nat.succ_pos _
  · intro s positive bounded
    rw [parent_add]
    split
    · rfl
    · rename_i old
      rw [size_add] at bounded
      exact wellFormed.parent?_isSome s positive (by omega)
  · intro s q parent
    rw [parent_add] at parent
    split at parent
    · rename_i last
      cases parent
      rw [last]
      exact inside
    · exact wellFormed.parent?_lt s q parent
  · intro s q parent
    rw [parent_add] at parent
    unfold childrenOf
    rw [get?_add f kind inside]
    split at parent
    · rename_i last
      cases parent
      have found : f.get? p = some f.scopes[p.index] := Array.getElem?_eq_getElem inside
      have new : s = ⟨f.size⟩ := by cases s; simp_all
      rw [if_neg (Nat.ne_of_lt inside), if_pos rfl, found, new]
      simp
    · have child := wellFormed.mem_childrenOf s q parent
      unfold childrenOf at child
      have old : q.index ≠ f.size := by
        intro last
        have missing : f.get? q = none := Array.getElem?_eq_none (Nat.le_of_eq last.symm)
        simp [missing] at child
      rw [if_neg old]
      split
      · cases found : f.get? q with
        | none => simp [found] at child
        | some x =>
            rw [found] at child
            exact List.mem_append_left _ child
      · exact child

theorem wellFormed_single (kind : ScopeKind) : (empty.add kind none).2.WellFormed where
  nonempty := Nat.zero_lt_one
  parent?_isSome s positive bounded := by
    rw [size_add] at bounded
    exact absurd positive (by simpa [size, empty] using bounded)
  parent?_lt s p parent := by
    have found : (empty.add kind none).2.parent? s = none := by
      unfold parent? get? add empty
      rcases s with ⟨_ | i⟩ <;> rfl
    simp [found] at parent
  mem_childrenOf s p parent := by
    have found : (empty.add kind none).2.parent? s = none := by
      unfold parent? get? add empty
      rcases s with ⟨_ | i⟩ <;> rfl
    simp [found] at parent

theorem bindingsOf_modify (f : ScopeForest) (s t : ScopeId) (change : Scope → Scope) :
    (f.modify s change).bindingsOf t =
      if s = t then ((f.get? t).map fun x => (change x).bindings).getD [] else f.bindingsOf t := by
  unfold bindingsOf
  rw [get?_modify]
  split
  · cases f.get? t <;> rfl
  · rfl

/-- Declaring a name binds it in its scope and changes nothing else. -/
theorem binds_declare (f : ScopeForest) (s t : ScopeId) (name other : String) (node : NodeId) :
    (f.declare s name node).binds t other =
      (decide (t = s ∧ other = name ∧ s.index < f.size) || f.binds t other) := by
  unfold binds declare
  rw [bindingsOf_modify]
  by_cases same : s = t
  · subst same
    by_cases bounded : s.index < f.size
    · have found : f.get? s = some f.scopes[s.index] := by
        simp [get?, Array.getElem?_eq_getElem bounded]
      simp [bindingsOf, found, NameTable.binds_add, bounded]
    · have missing : f.get? s = none := by
        simpa [get?, size] using bounded
      simp [bindingsOf, missing, bounded]
  · simp [same, Ne.symm same]

/-- Undeclaring a name at most unbinds it in its scope. -/
theorem binds_undeclare_of_ne (f : ScopeForest) {s t : ScopeId} {name other : String}
    (node : NodeId) (different : t = s → other ≠ name) :
    (f.undeclare s name node).binds t other = f.binds t other := by
  unfold binds undeclare
  rw [bindingsOf_modify]
  by_cases same : s = t
  · subst same
    cases found : f.get? s with
    | none => simp [bindingsOf, found]
    | some scope =>
        simp [bindingsOf, found, NameTable.binds_remove_of_ne node _ (different rfl)]
  · simp [same]

theorem binds_of_binds_undeclare (f : ScopeForest) {s t : ScopeId} {name other : String}
    (node : NodeId) (bound : (f.undeclare s name node).binds t other = true) :
    f.binds t other = true := by
  unfold binds undeclare at bound
  rw [bindingsOf_modify] at bound
  unfold binds
  by_cases same : s = t
  · subst same
    cases found : f.get? s with
    | none => simp [found, NameTable.binds] at bound
    | some scope =>
        simp only [found, Option.map_some, Option.getD_some, if_true] at bound
        simpa [bindingsOf, found] using NameTable.binds_of_binds_remove bound
  · rwa [if_neg same] at bound

/-! ### Chains -/

theorem chain_of_parent {s p : ScopeId} (wellFormed : f.WellFormed) (parent : f.parent? s = some p) :
    f.chain s = s :: f.chain p := by
  rw [chain, parent]
  simp [wellFormed.parent?_lt s p parent]

theorem chain_of_parent_none {s : ScopeId} (parent : f.parent? s = none) : f.chain s = [s] := by
  rw [chain, parent]

theorem mem_chain_self (f : ScopeForest) (s : ScopeId) : s ∈ f.chain s := by
  rw [chain]
  exact List.mem_cons_self

/-- No scope on a chain comes after the first. -/
theorem index_le_of_mem_chain (f : ScopeForest) {s t : ScopeId} (inside : t ∈ f.chain s) :
    t.index ≤ s.index := by
  induction s using chain.induct with
  | case1 s ih =>
      rw [chain] at inside
      rcases List.mem_cons.mp inside with rfl | inside
      · exact Nat.le_refl _
      · cases parent : f.parent? s with
        | none => simp [parent] at inside
        | some p =>
            rw [parent] at inside
            dsimp only at inside
            split at inside
            · rename_i smaller
              exact Nat.le_trans (ih p smaller inside) (Nat.le_of_lt smaller)
            · simp at inside

theorem varScope_lt (f : ScopeForest) {s : ScopeId} (bounded : s.index < f.size) :
    (f.varScope s).index < f.size := by
  unfold varScope
  cases found : (f.chain s).find? fun t => (f.get? t).any (·.kind.holdsVars) with
  | none => exact bounded
  | some t =>
      exact Nat.lt_of_le_of_lt (f.index_le_of_mem_chain (List.mem_of_find?_eq_some found)) bounded

theorem chain_of_sameShape {g : ScopeForest} (same : SameShape f g) (s : ScopeId) :
    g.chain s = f.chain s := by
  induction s using chain.induct with
  | case1 s ih =>
      rw [chain, chain, same.parent?_eq]
      cases f.parent? s with
      | none => rfl
      | some p =>
          dsimp only
          split
          · rename_i smaller
            rw [ih p smaller]
          · rfl

theorem isWithin_of_sameShape {g : ScopeForest} (same : SameShape f g) (inner outer : ScopeId) :
    g.isWithin inner outer = f.isWithin inner outer := by
  rw [isWithin, isWithin, chain_of_sameShape same]

/-- The chain of a scope on a chain is the rest of that chain. -/
theorem chain_suffix (wellFormed : f.WellFormed) {s t : ScopeId} (found : t ∈ f.chain s) :
    f.chain t <:+ f.chain s := by
  induction s using chain.induct with
  | case1 s ih =>
      cases parent : f.parent? s with
      | none =>
          rw [chain_of_parent_none parent, List.mem_singleton] at found
          subst found
          exact List.suffix_refl _
      | some p =>
          have step := chain_of_parent wellFormed parent
          rw [step, List.mem_cons] at found
          rcases found with rfl | found
          · exact List.suffix_refl _
          · rw [step]
            exact (ih p (wellFormed.parent?_lt s p parent) found).trans
              (List.suffix_cons s _)

/-- Every chain ends at the module. -/
theorem module_mem_chain (wellFormed : f.WellFormed) {s : ScopeId} (bounded : s.index < f.size) :
    (⟨0⟩ : ScopeId) ∈ f.chain s := by
  induction s using chain.induct with
  | case1 s ih =>
      cases parent : f.parent? s with
      | none =>
          rcases Nat.eq_zero_or_pos s.index with zero | positive
          · have root : s = ⟨0⟩ := by cases s; simp_all
            rw [root]
            exact f.mem_chain_self _
          · have := wellFormed.parent?_isSome s positive bounded
            simp [parent] at this
      | some p =>
          have smaller := wellFormed.parent?_lt s p parent
          rw [chain_of_parent wellFormed parent]
          exact List.mem_cons_of_mem _ (ih p smaller (by omega))

/-- A name that is bound somewhere inside a scope is bound below it. -/
theorem bindsBelow_of_binds (wellFormed : f.WellFormed) {s t : ScopeId} {name : String}
    (inside : s ∈ f.chain t) (bound : f.bindsBelow t name = true) :
    f.bindsBelow s name = true := by
  induction t using chain.induct with
  | case1 t ih =>
      cases parent : f.parent? t with
      | none =>
          rw [chain_of_parent_none parent, List.mem_singleton] at inside
          rwa [inside]
      | some p =>
          have smaller := wellFormed.parent?_lt t p parent
          rw [chain_of_parent wellFormed parent, List.mem_cons] at inside
          rcases inside with rfl | inside
          · exact bound
          · refine ih p smaller inside ?_
            have bounded : t.index < f.size := by
              by_contra outside
              simp [parent?, get?, Array.getElem?_eq_none (Nat.le_of_not_lt outside)] at parent
            rw [bindsBelow, Bool.or_eq_true, List.any_eq_true]
            refine Or.inr ⟨t, wellFormed.mem_childrenOf t p parent, ?_⟩
            rw [if_pos ⟨smaller, bounded⟩]
            exact bound

theorem not_binds_of_not_bindsBelow (wellFormed : f.WellFormed) {s t : ScopeId} {name : String}
    (unbound : f.bindsBelow s name = false) (inside : s ∈ f.chain t) : f.binds t name = false := by
  by_contra bound
  rw [Bool.not_eq_false] at bound
  have below : f.bindsBelow t name = true := by
    rw [bindsBelow, bound, Bool.true_or]
  simp [bindsBelow_of_binds wellFormed inside below] at unbound

/-- A scope that stands before another on a chain lies inside it. -/
theorem mem_chain_of_append (wellFormed : f.WellFormed) {s t u : ScopeId} {before after : List ScopeId}
    (split : f.chain s = before ++ u :: after) (found : t ∈ before) : u ∈ f.chain t := by
  induction s using chain.induct generalizing before with
  | case1 s ih =>
      cases before with
      | nil => simp at found
      | cons first before =>
          cases parent : f.parent? s with
          | none =>
              rw [chain_of_parent_none parent] at split
              simp at split
          | some p =>
              have whole := split
              rw [chain_of_parent wellFormed parent, List.cons_append, List.cons.injEq] at split
              rcases List.mem_cons.mp found with rfl | found
              · rw [← split.1, whole]
                simp
              · exact ih p (wellFormed.parent?_lt s p parent) split.2 found

/-! ### Resolution -/

theorem binds_of_resolve? {s t : ScopeId} {name : String}
    (found : f.resolve? s name = some t) : f.binds t name = true := by
  simpa using List.find?_some found

theorem resolve?_eq_none_iff {s : ScopeId} {name : String} :
    f.resolve? s name = none ↔ ∀ t ∈ f.chain s, f.binds t name = false := by
  simp [resolve?]

/-- Resolution looks only at the scopes of the chain. -/
theorem resolve?_congr {g : ScopeForest} (same : SameShape f g) {s : ScopeId} {name : String}
    (agree : ∀ t ∈ f.chain s, g.binds t name = f.binds t name) :
    g.resolve? s name = f.resolve? s name := by
  rw [resolve?, resolve?, chain_of_sameShape same]
  exact List.find?_congr agree

/-- Declaring a name that cannot be seen from its scope gives a meaning to the uses inside the scope
that had none, and to no others. -/
theorem resolve?_declare (wellFormed : f.WellFormed) {s t : ScopeId} {name other : String}
    {node : NodeId} (bounded : s.index < f.size) (unseen : f.resolve? s name = none) :
    (f.declare s name node).resolve? t other =
      if other = name ∧ s ∈ f.chain t ∧ f.resolve? t other = none then some s
      else f.resolve? t other := by
  have shape := f.sameShape_declare s name node
  by_cases same : other = name
  · subst same
    cases before : f.resolve? t other with
    | some u =>
        rw [if_neg (by simp)]
        have unfolded := before
        rw [resolve?, List.find?_eq_some_iff_append] at unfolded
        obtain ⟨bound, inner, outer, split, unbound⟩ := unfolded
        rw [resolve?, chain_of_sameShape shape, List.find?_eq_some_iff_append]
        refine ⟨by simp [binds_declare, bound], inner, outer, split, ?_⟩
        intro v found
        have elsewhere : v ≠ s := by
          rintro rfl
          have seen := mem_chain_of_append wellFormed split found
          simp [resolve?_eq_none_iff.mp unseen u seen] at bound
        simpa [binds_declare, elsewhere] using unbound v found
    | none =>
        have unbound := resolve?_eq_none_iff.mp before
        by_cases inside : s ∈ f.chain t
        · rw [if_pos ⟨rfl, inside, rfl⟩]
          obtain ⟨inner, outer, split, first⟩ := List.eq_append_cons_of_mem inside
          rw [resolve?, chain_of_sameShape shape, List.find?_eq_some_iff_append]
          refine ⟨by simp [binds_declare, bounded], inner, outer, split, ?_⟩
          intro v found
          have elsewhere : v ≠ s := fun equal => first (equal ▸ found)
          have onChain : v ∈ f.chain t := by
            rw [split]
            exact List.mem_append_left _ found
          simp [binds_declare, elsewhere, unbound v onChain]
        · rw [if_neg (by simp [inside]), ← before]
          refine resolve?_congr shape fun v found => ?_
          have elsewhere : v ≠ s := fun equal => inside (equal ▸ found)
          simp [binds_declare, elsewhere]
  · rw [if_neg (by simp [same])]
    exact resolve?_congr shape fun v _ => by simp [binds_declare, same]

/-- A name may be declared in the module whether it is bound there or not. -/
theorem resolve?_declare_module (wellFormed : f.WellFormed) {s : ScopeId} {name other : String}
    {node : NodeId} (bounded : s.index < f.size) :
    (f.declare ⟨0⟩ name node).resolve? s other =
      if other = name ∧ f.resolve? s other = none then some ⟨0⟩ else f.resolve? s other := by
  have inModule : (⟨0⟩ : ScopeId) ∈ f.chain s := module_mem_chain wellFormed bounded
  by_cases unseen : f.resolve? ⟨0⟩ name = none
  · rw [resolve?_declare wellFormed wellFormed.nonempty unseen]
    simp [inModule]
  · -- The name is bound in the module, so no use of it finds nothing, and declaring it again is idle.
    have parentless : f.parent? ⟨0⟩ = none := by
      cases parent : f.parent? ⟨0⟩ with
      | none => rfl
      | some p => exact absurd (wellFormed.parent?_lt _ _ parent) (Nat.not_lt_zero _)
    have bound : f.binds ⟨0⟩ name = true := by
      rw [resolve?_eq_none_iff, chain_of_parent_none parentless] at unseen
      simpa using unseen
    have found : other = name → f.resolve? s other ≠ none := by
      rintro rfl missing
      have unbound := resolve?_eq_none_iff.mp missing _ inModule
      rw [bound] at unbound
      cases unbound
    rw [if_neg fun both => found both.1 both.2]
    refine resolve?_congr (f.sameShape_declare ⟨0⟩ name node) fun t _ => ?_
    rw [binds_declare]
    by_cases here : t = ⟨0⟩ ∧ other = name ∧ 0 < f.size
    · rw [here.1, here.2.1, bound, Bool.or_true]
    · rw [decide_eq_false here, Bool.false_or]

/-- A search that did not end at an element does not miss it. -/
theorem find?_eq_of_agree_off {α : Type} {p q : α → Bool} {a : α} {l : List α}
    (agree : ∀ x ∈ l, x ≠ a → q x = p x) (weaker : q a = true → p a = true)
    (other : l.find? p ≠ some a) : l.find? q = l.find? p := by
  induction l with
  | nil => rfl
  | cons x l ih =>
      by_cases here : x = a
      · subst here
        have missed : p x = false := by
          rw [Bool.eq_false_iff]
          intro hit
          simp [hit] at other
        have missed' : q x = false := by
          rw [Bool.eq_false_iff]
          intro hit
          simp [weaker hit] at missed
        rw [List.find?_cons, List.find?_cons, missed, missed']
        refine ih (fun y found => agree y (List.mem_cons_of_mem _ found)) ?_
        simpa [List.find?_cons, missed] using other
      · rw [List.find?_cons, List.find?_cons, agree x List.mem_cons_self here]
        cases hit : p x with
        | true => rfl
        | false =>
            refine ih (fun y found => agree y (List.mem_cons_of_mem _ found)) ?_
            simpa [List.find?_cons, hit] using other

/-- Undeclaring a name leaves alone every use that did not find the name in that scope. -/
theorem resolve?_undeclare {s t : ScopeId} {name other : String} (node : NodeId)
    (unused : other = name → f.resolve? t other ≠ some s) :
    (f.undeclare s name node).resolve? t other = f.resolve? t other := by
  have shape := f.sameShape_undeclare s name node
  by_cases same : other = name
  · rw [resolve?, resolve?, chain_of_sameShape shape]
    refine find?_eq_of_agree_off ?_ (f.binds_of_binds_undeclare node) (unused same)
    intro u _ elsewhere
    exact f.binds_undeclare_of_ne node fun here => absurd here elsewhere
  · exact resolve?_congr shape fun u _ => f.binds_undeclare_of_ne node fun _ => same

end ScopeForest

end BindingRepair.Script
