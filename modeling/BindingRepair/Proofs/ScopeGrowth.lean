/-
# Growing forests of scopes

While a script is read, scopes are added and names are declared, but no scope changes its place or its
kind. So what lies within a scope, and where its `var` declarations belong, stays as it is.
-/

import BindingRepair.Proofs.ScopeForest

namespace BindingRepair.Script.ScopeForest

variable {f g h : ScopeForest}

/-! ### Nesting -/

theorem isWithin_self (f : ScopeForest) (s : ScopeId) : f.isWithin s s = true :=
  List.contains_iff_mem.mpr (f.mem_chain_self s)

theorem isWithin_trans (wellFormed : f.WellFormed) {r s t : ScopeId} (first : f.isWithin r s = true)
    (second : f.isWithin s t = true) : f.isWithin r t = true := by
  unfold isWithin at *
  rw [List.contains_iff_mem] at *
  exact (chain_suffix wellFormed first).subset second

/-- If the first scope holds `var` declarations, the scope that they belong to is found. -/
theorem find?_holdsVars (wellFormed : f.WellFormed) (module : (f.get? ⟨0⟩).any (·.kind.holdsVars) = true)
    {s : ScopeId} (known : s.index < f.size) :
    (f.chain s).find? (fun t => (f.get? t).any (·.kind.holdsVars)) = some (f.varScope s) := by
  unfold varScope
  cases found : (f.chain s).find? fun t => (f.get? t).any (·.kind.holdsVars) with
  | none =>
      have none := List.find?_eq_none.mp found ⟨0⟩ (f.module_mem_chain wellFormed known)
      exact absurd module none
  | some t => rfl

/-! ### Growth -/

/-- The later forest has the scopes of the earlier one in their places, and perhaps more. -/
structure Extends (f g : ScopeForest) : Prop where
  size_le : f.size ≤ g.size
  parent?_eq : ∀ s : ScopeId, s.index < f.size → g.parent? s = f.parent? s
  kind_eq : ∀ s : ScopeId, s.index < f.size → (g.get? s).map (·.kind) = (f.get? s).map (·.kind)

namespace Extends

theorem refl (f : ScopeForest) : Extends f f :=
  ⟨Nat.le_refl _, fun _ _ => rfl, fun _ _ => rfl⟩

theorem trans (first : Extends f g) (second : Extends g h) : Extends f h where
  size_le := Nat.le_trans first.size_le second.size_le
  parent?_eq s known :=
    (second.parent?_eq s (Nat.lt_of_lt_of_le known first.size_le)).trans (first.parent?_eq s known)
  kind_eq s known :=
    (second.kind_eq s (Nat.lt_of_lt_of_le known first.size_le)).trans (first.kind_eq s known)

section Same

variable (grows : Extends f g) (wellFormed : f.WellFormed)
include grows wellFormed

theorem chain_eq {s : ScopeId} (known : s.index < f.size) : g.chain s = f.chain s := by
  induction s using chain.induct with
  | case1 s ih =>
      rw [chain, chain, grows.parent?_eq s known]
      cases parent : f.parent? s with
      | none => rfl
      | some p =>
          have smaller := wellFormed.parent?_lt s p parent
          dsimp only
          rw [if_pos smaller, if_pos smaller, ih p smaller (Nat.lt_trans smaller known)]

theorem isWithin_eq {s : ScopeId} (known : s.index < f.size) (outer : ScopeId) :
    g.isWithin s outer = f.isWithin s outer := by
  rw [isWithin, isWithin, grows.chain_eq wellFormed known]

theorem varScope_eq {s : ScopeId} (known : s.index < f.size) : g.varScope s = f.varScope s := by
  have holds (t : ScopeId) (inside : t ∈ f.chain s) :
      (g.get? t).any (·.kind.holdsVars) = (f.get? t).any (·.kind.holdsVars) := by
    have same := grows.kind_eq t (Nat.lt_of_le_of_lt (f.index_le_of_mem_chain inside) known)
    have mapped (x : Option Scope) :
        x.any (·.kind.holdsVars) = (x.map (·.kind)).any ScopeKind.holdsVars := by
      cases x with
      | none => rfl
      | some scope => rfl
    rw [mapped, mapped, same]
  have found : (f.chain s).find? (fun t => (g.get? t).any (·.kind.holdsVars)) =
      (f.chain s).find? fun t => (f.get? t).any (·.kind.holdsVars) := by
    generalize f.chain s = chain at holds
    induction chain with
    | nil => rfl
    | cons t rest ih =>
        rw [List.find?_cons, List.find?_cons, holds t List.mem_cons_self,
          ih fun u here => holds u (List.mem_cons_of_mem t here)]
  rw [varScope, varScope, grows.chain_eq wellFormed known, found]

end Same

end Extends

theorem extends_declare (f : ScopeForest) (s : ScopeId) (name : String) (node : NodeId) :
    Extends f (f.declare s name node) where
  size_le := (f.sameShape_declare s name node).size_eq.ge
  parent?_eq t _ := (f.sameShape_declare s name node).parent?_eq t
  kind_eq t _ := by
    unfold declare
    rw [get?_modify]
    split
    · cases f.get? t with
      | none => rfl
      | some scope => rfl
    · rfl

section Add

variable (kind : ScopeKind) {p : ScopeId} (inside : p.index < f.size)
include inside

theorem extends_add : Extends f (f.add kind (some p)).2 := by
  have get?_old (s : ScopeId) (known : s.index < f.size) : (f.add kind (some p)).2.get? s =
      if s = p then (f.get? s).map fun x => { x with children := x.children ++ [⟨f.size⟩] }
      else f.get? s := by
    rw [get?_add f kind inside, if_neg (Nat.ne_of_lt known)]
  refine ⟨?_, fun s known => ?_, fun s known => ?_⟩
  · rw [size_add]
    exact Nat.le_succ _
  · unfold parent?
    rw [get?_old s known]
    split
    · cases f.get? s with
      | none => rfl
      | some scope => rfl
    · rfl
  · rw [get?_old s known]
    split
    · cases f.get? s with
      | none => rfl
      | some scope => rfl
    · rfl

/-- A new scope lies within the one that it is added to. -/
theorem isWithin_add (wellFormed : f.WellFormed) : (f.add kind (some p)).2.isWithin ⟨f.size⟩ p = true := by
  have parent : (f.add kind (some p)).2.parent? ⟨f.size⟩ = some p := by
    unfold parent?
    rw [get?_add f kind inside, if_pos rfl]
    rfl
  rw [isWithin, List.contains_iff_mem, chain_of_parent (wellFormed.add kind inside) parent]
  exact List.mem_cons_of_mem _ (mem_chain_self _ p)

end Add

end BindingRepair.Script.ScopeForest
