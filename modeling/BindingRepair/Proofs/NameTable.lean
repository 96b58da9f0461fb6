/-
# Tables of names

The table of a scope keeps its names in ascending order, each with at least one node. In such a table
adding and removing a node change what is listed under one name only, so a forest of such tables lists
exactly the nodes that have been declared and not forgotten since.
-/

import BindingRepair.Proofs.ScopeForest
import Mathlib.Data.List.Nodup
import Mathlib.Data.String.Basic

namespace BindingRepair.Script

namespace NameTable

/-- The names ascend, and each of them has nodes. -/
structure Tidy (table : NameTable) : Prop where
  ascending : table.Pairwise (·.1 < ·.1)
  nonempty : ∀ entry ∈ table, entry.2 ≠ []

theorem tidy_nil : Tidy [] :=
  ⟨.nil, nofun⟩

theorem tidy_cons_iff {entry : String × List NodeId} {rest : NameTable} :
    Tidy (entry :: rest) ↔ (∀ later ∈ rest, entry.1 < later.1) ∧ entry.2 ≠ [] ∧ Tidy rest := by
  constructor
  · intro tidy
    have ⟨before, ascending⟩ := List.pairwise_cons.mp tidy.ascending
    exact ⟨before, tidy.nonempty entry List.mem_cons_self, ascending,
      fun later here => tidy.nonempty later (List.mem_cons_of_mem _ here)⟩
  · rintro ⟨before, nonempty, tidy⟩
    refine ⟨List.pairwise_cons.mpr ⟨before, tidy.ascending⟩, fun later here => ?_⟩
    rcases List.mem_cons.mp here with rfl | here
    · exact nonempty
    · exact tidy.nonempty later here

theorem nodesOf_cons (n name : String) (nodes : List NodeId) (rest : NameTable) :
    nodesOf ((n, nodes) :: rest) name = if name = n then nodes else rest.nodesOf name := by
  unfold nodesOf
  by_cases here : name = n
  · simp [here]
  · simp [List.lookup_cons, beq_false_of_ne here, here]

theorem nodesOf_eq_nil {table : NameTable} {name : String} (absent : ∀ entry ∈ table, name ≠ entry.1) :
    table.nodesOf name = [] := by
  induction table with
  | nil => rfl
  | cons entry rest ih =>
      rw [nodesOf_cons, if_neg (absent entry List.mem_cons_self)]
      exact ih fun later here => absent later (List.mem_cons_of_mem _ here)

/-- A name is in a tidy table if it has a node there. -/
theorem Tidy.binds_iff {table : NameTable} (tidy : table.Tidy) (name : String) :
    table.binds name = true ↔ table.nodesOf name ≠ [] := by
  unfold binds nodesOf
  cases found : table.lookup name with
  | none => simp
  | some nodes =>
      have entry : (name, nodes) ∈ table := by
        obtain ⟨before, after, split, -⟩ := List.lookup_eq_some_iff.mp found
        exact split ▸ List.mem_append_right _ List.mem_cons_self
      simpa using tidy.nonempty _ entry

section Add

variable (name other : String) (node : NodeId) {table : NameTable}

theorem mem_add {entry : String × List NodeId} (here : entry ∈ add name node table) :
    entry.1 = name ∨ ∃ old ∈ table, old.1 = entry.1 := by
  induction table with
  | nil => exact .inl (by rw [List.mem_singleton.mp here])
  | cons first rest ih =>
      obtain ⟨n, nodes⟩ := first
      unfold add at here
      split at here
      · rcases List.mem_cons.mp here with rfl | here
        · exact .inr ⟨_, List.mem_cons_self, rfl⟩
        · exact .inr ⟨entry, List.mem_cons_of_mem _ here, rfl⟩
      · split at here
        · rcases List.mem_cons.mp here with rfl | here
          · exact .inl rfl
          · exact .inr ⟨entry, here, rfl⟩
        · rcases List.mem_cons.mp here with rfl | here
          · exact .inr ⟨_, List.mem_cons_self, rfl⟩
          · rcases ih here with same | ⟨old, inRest, same⟩
            · exact .inl same
            · exact .inr ⟨old, List.mem_cons_of_mem _ inRest, same⟩

/-- The added node stands last under its name. -/
theorem Tidy.nodesOf_add (tidy : table.Tidy) : (add name node table).nodesOf other =
    if other = name then table.nodesOf name ++ [node] else table.nodesOf other := by
  induction table with
  | nil => rw [add, nodesOf_cons]; rfl
  | cons first rest ih =>
      obtain ⟨n, nodes⟩ := first
      obtain ⟨before, -, tidyRest⟩ := tidy_cons_iff.mp tidy
      unfold add
      by_cases here : name = n
      · subst here
        simp only [if_true, nodesOf_cons]
        split <;> rfl
      · rw [if_neg here]
        by_cases earlier : name < n
        · -- The name stands before all names of the table, so it has no node yet.
          have absent : nodesOf ((n, nodes) :: rest) name = [] := by
            refine nodesOf_eq_nil fun entry found => ?_
            rcases List.mem_cons.mp found with rfl | found
            · exact here
            · exact (earlier.trans (before entry found)).ne
          rw [if_pos earlier, nodesOf_cons, absent, List.nil_append]
        · rw [if_neg earlier, nodesOf_cons, nodesOf_cons, nodesOf_cons, ih tidyRest, if_neg here]
          by_cases first : other = n
          · rw [if_pos first, if_neg fun same => here (same.symm.trans first), if_pos first]
          · rw [if_neg first, if_neg first]

theorem Tidy.add (tidy : table.Tidy) : (add name node table).Tidy := by
  induction table with
  | nil => exact tidy_cons_iff.mpr ⟨nofun, List.cons_ne_nil _ _, tidy_nil⟩
  | cons first rest ih =>
      obtain ⟨n, nodes⟩ := first
      obtain ⟨before, nonempty, tidyRest⟩ := tidy_cons_iff.mp tidy
      unfold NameTable.add
      by_cases here : name = n
      · rw [if_pos here]
        exact tidy_cons_iff.mpr ⟨before, by simp, tidyRest⟩
      · rw [if_neg here]
        by_cases earlier : name < n
        · rw [if_pos earlier]
          refine tidy_cons_iff.mpr ⟨fun later found => ?_, List.cons_ne_nil _ _, tidy⟩
          rcases List.mem_cons.mp found with rfl | found
          · exact earlier
          · exact earlier.trans (before later found)
        · rw [if_neg earlier]
          refine tidy_cons_iff.mpr ⟨fun later found => ?_, nonempty, ih tidyRest⟩
          rcases mem_add name node found with same | ⟨old, inRest, same⟩
          · rw [same]
            exact lt_of_le_of_ne (not_lt.mp earlier) (Ne.symm here)
          · rw [← same]
            exact before old inRest

end Add

section Remove

variable (name other : String) (node : NodeId) {table : NameTable}

theorem mem_remove {entry : String × List NodeId} (here : entry ∈ remove name node table) :
    ∃ old ∈ table, old.1 = entry.1 := by
  induction table with
  | nil => cases here
  | cons first rest ih =>
      obtain ⟨n, nodes⟩ := first
      unfold remove at here
      split at here
      · dsimp only at here
        split at here
        · exact ⟨entry, List.mem_cons_of_mem _ here, rfl⟩
        · rcases List.mem_cons.mp here with rfl | here
          · exact ⟨_, List.mem_cons_self, rfl⟩
          · exact ⟨entry, List.mem_cons_of_mem _ here, rfl⟩
      · rcases List.mem_cons.mp here with rfl | here
        · exact ⟨_, List.mem_cons_self, rfl⟩
        · obtain ⟨old, inRest, same⟩ := ih here
          exact ⟨old, List.mem_cons_of_mem _ inRest, same⟩

/-- The removed node is no longer under its name; all else is where it was. -/
theorem Tidy.nodesOf_remove (tidy : table.Tidy) : (remove name node table).nodesOf other =
    if other = name then (table.nodesOf name).filter (· ≠ node) else table.nodesOf other := by
  induction table with
  | nil => simp [remove, nodesOf]
  | cons first rest ih =>
      obtain ⟨n, nodes⟩ := first
      obtain ⟨before, -, tidyRest⟩ := tidy_cons_iff.mp tidy
      unfold remove
      by_cases here : name = n
      · subst here
        rw [if_pos rfl, nodesOf_cons, nodesOf_cons, if_pos rfl]
        dsimp only
        by_cases same : other = name
        · subst same
          rw [if_pos rfl]
          split
          · rename_i none
            rw [List.isEmpty_iff.mp none]
            exact nodesOf_eq_nil fun entry found => (before entry found).ne
          · rw [nodesOf_cons, if_pos rfl]
        · rw [if_neg same, if_neg same]
          split
          · rfl
          · rw [nodesOf_cons, if_neg same]
      · rw [if_neg here, nodesOf_cons, nodesOf_cons, nodesOf_cons, ih tidyRest, if_neg here]
        by_cases first : other = n
        · rw [if_pos first, if_neg fun same => here (same.symm.trans first), if_pos first]
        · rw [if_neg first, if_neg first]

theorem Tidy.remove (tidy : table.Tidy) : (remove name node table).Tidy := by
  induction table with
  | nil => exact tidy_nil
  | cons first rest ih =>
      obtain ⟨n, nodes⟩ := first
      obtain ⟨before, nonempty, tidyRest⟩ := tidy_cons_iff.mp tidy
      unfold NameTable.remove
      by_cases here : name = n
      · rw [if_pos here]
        dsimp only
        split
        · exact tidyRest
        · rename_i some
          exact tidy_cons_iff.mpr ⟨before, fun none => some (List.isEmpty_iff.mpr none), tidyRest⟩
      · rw [if_neg here]
        refine tidy_cons_iff.mpr ⟨fun later found => ?_, nonempty, ih tidyRest⟩
        obtain ⟨old, inRest, same⟩ := mem_remove name node found
        rw [← same]
        exact before old inRest

/-- A node that is entered and taken out again leaves no trace. -/
theorem Tidy.remove_add (tidy : table.Tidy) (absent : node ∉ table.nodesOf name) :
    (table.add name node).remove name node = table := by
  induction table with
  | nil => simp [NameTable.add, NameTable.remove]
  | cons first rest ih =>
      obtain ⟨n, nodes⟩ := first
      obtain ⟨-, nonempty, tidyRest⟩ := tidy_cons_iff.mp tidy
      rw [nodesOf_cons] at absent
      unfold NameTable.add
      by_cases here : name = n
      · subst here
        rw [if_pos rfl] at absent
        have left : (nodes ++ [node]).filter (· ≠ node) = nodes := by
          rw [List.filter_append, List.filter_eq_self.mpr fun other here => ?_]
          · simp
          · exact decide_eq_true fun same => absent (same ▸ here)
        rw [if_pos rfl, NameTable.remove, if_pos rfl, left,
          if_neg fun none => nonempty (List.isEmpty_iff.mp none)]
      · rw [if_neg here] at absent ⊢
        by_cases earlier : name < n
        · rw [if_pos earlier, NameTable.remove, if_pos rfl]
          simp
        · rw [if_neg earlier, NameTable.remove, if_neg here, ih tidyRest absent]

end Remove

end NameTable

/-! ### The tables of all scopes -/

namespace ScopeForest

variable {f : ScopeForest} {s : ScopeId} {name : String} {node : NodeId}

theorem bindingsOf_declare (bounded : s.index < f.size) (t : ScopeId) :
    (f.declare s name node).bindingsOf t =
      if t = s then (f.bindingsOf s).add name node else f.bindingsOf t := by
  have found : f.get? s = some f.scopes[s.index] := Array.getElem?_eq_getElem bounded
  rw [declare, bindingsOf_modify]
  by_cases here : t = s
  · subst here
    simp [bindingsOf, found]
  · rw [if_neg (Ne.symm here), if_neg here]

theorem bindingsOf_undeclare (t : ScopeId) : (f.undeclare s name node).bindingsOf t =
    if t = s then (f.bindingsOf s).remove name node else f.bindingsOf t := by
  rw [undeclare, bindingsOf_modify]
  by_cases here : t = s
  · subst here
    rw [if_pos rfl, if_pos rfl, bindingsOf]
    cases f.get? t <;> rfl
  · rw [if_neg (Ne.symm here), if_neg here]

theorem bindingsOf_eq_nil (outside : f.size ≤ s.index) : f.bindingsOf s = [] := by
  have missing : f.get? s = none := Array.getElem?_eq_none outside
  rw [bindingsOf, missing]
  rfl

/-- A new scope binds nothing. -/
theorem bindingsOf_add (kind : ScopeKind) {p : ScopeId} (inside : p.index < f.size) (t : ScopeId) :
    (f.add kind (some p)).2.bindingsOf t = f.bindingsOf t := by
  rw [bindingsOf, get?_add f kind inside]
  split
  · rename_i last
    rw [bindingsOf_eq_nil (Nat.le_of_eq last.symm)]
    rfl
  · rw [bindingsOf]
    split
    · cases f.get? t <;> rfl
    · rfl

/-- A declared node is listed last under its name. -/
theorem nodesOf_declare (bounded : s.index < f.size) (tidy : (f.bindingsOf s).Tidy) (t : ScopeId)
    (other : String) : ((f.declare s name node).bindingsOf t).nodesOf other =
      if t = s ∧ other = name then (f.bindingsOf s).nodesOf name ++ [node]
      else (f.bindingsOf t).nodesOf other := by
  rw [bindingsOf_declare bounded]
  by_cases here : t = s
  · subst here
    simp only [if_true, tidy.nodesOf_add, true_and]
  · simp [here]

theorem nodesOf_undeclare (tidy : (f.bindingsOf s).Tidy) (t : ScopeId) (other : String) :
    ((f.undeclare s name node).bindingsOf t).nodesOf other =
      if t = s ∧ other = name then ((f.bindingsOf s).nodesOf name).filter (· ≠ node)
      else (f.bindingsOf t).nodesOf other := by
  rw [bindingsOf_undeclare]
  by_cases here : t = s
  · subst here
    simp only [if_true, tidy.nodesOf_remove, true_and]
  · simp [here]

/-- A declaration of a node that the name did not have is forgotten without a trace. -/
theorem undeclare_declare (tidy : (f.bindingsOf s).Tidy) (absent : node ∉ (f.bindingsOf s).nodesOf name) :
    (f.declare s name node).undeclare s name node = f := by
  refine congrArg ScopeForest.mk (Array.ext_getElem? fun i => ?_)
  simp only [declare, modify, Array.getElem?_modify]
  split
  · rename_i here
    subst here
    cases found : f.scopes[s.index]? with
    | none => rfl
    | some scope =>
        rw [bindingsOf, get?, found, Option.map_some, Option.getD_some] at tidy absent
        simp only [Option.map_some, Option.some.injEq]
        rw [tidy.remove_add name node absent]
  · rfl

/-- The tables are tidy, and list under each name exactly the nodes that bind it, each once. -/
structure Lists (f : ScopeForest) (binds : NodeId → ScopeId → String → Prop) : Prop where
  tidy : ∀ s, (f.bindingsOf s).Tidy
  nodup : ∀ s name, ((f.bindingsOf s).nodesOf name).Nodup
  mem_iff : ∀ s name id, id ∈ (f.bindingsOf s).nodesOf name ↔ binds id s name

namespace Lists

variable {binds binds' : NodeId → ScopeId → String → Prop} (lists : f.Lists binds)
include lists

theorem congr {g : ScopeForest} (tables : ∀ s, g.bindingsOf s = f.bindingsOf s)
    (same : ∀ id s name, binds id s name ↔ binds' id s name) : g.Lists binds' where
  tidy s := tables s ▸ lists.tidy s
  nodup s name := tables s ▸ lists.nodup s name
  mem_iff s name id := by rw [tables, lists.mem_iff, same]

theorem binds_iff (s : ScopeId) (name : String) :
    f.binds s name = true ↔ ∃ id, binds id s name := by
  rw [ScopeForest.binds, (lists.tidy s).binds_iff, Ne, List.eq_nil_iff_forall_not_mem]
  simp only [lists.mem_iff, not_forall, not_not]

/-- A node that binds a name for the first time is declared. -/
theorem declare (bounded : s.index < f.size) (new : ¬binds node s name) :
    (f.declare s name node).Lists fun id t other =>
      binds id t other ∨ id = node ∧ t = s ∧ other = name := by
  refine ⟨fun t => ?_, fun t other => ?_, fun t other id => ?_⟩
  · rw [bindingsOf_declare bounded]
    split
    · exact (lists.tidy s).add name node
    · exact lists.tidy t
  · rw [nodesOf_declare bounded (lists.tidy s)]
    split
    · have absent : node ∉ (f.bindingsOf s).nodesOf name := mt (lists.mem_iff s name node).mp new
      exact List.Nodup.append (lists.nodup s name) (List.nodup_singleton node)
        (List.disjoint_singleton.mpr absent)
    · exact lists.nodup t other
  · rw [nodesOf_declare bounded (lists.tidy s)]
    split
    · rename_i here
      rw [List.mem_append, List.mem_singleton, lists.mem_iff, here.1, here.2]
      simp
    · rename_i elsewhere
      rw [lists.mem_iff, or_iff_left fun all => elsewhere all.2]

/-- A node that no longer binds a name is forgotten under it. -/
theorem undeclare (s : ScopeId) (name : String) (node : NodeId) :
    (f.undeclare s name node).Lists fun id t other =>
      binds id t other ∧ ¬(id = node ∧ t = s ∧ other = name) := by
  refine ⟨fun t => ?_, fun t other => ?_, fun t other id => ?_⟩
  · rw [bindingsOf_undeclare]
    split
    · exact (lists.tidy s).remove name node
    · exact lists.tidy t
  · rw [nodesOf_undeclare (lists.tidy s)]
    split
    · exact (lists.nodup s name).filter _
    · exact lists.nodup t other
  · rw [nodesOf_undeclare (lists.tidy s)]
    split
    · rename_i here
      rw [List.mem_filter, lists.mem_iff, here.1, here.2]
      simp
    · rename_i elsewhere
      rw [lists.mem_iff, and_iff_left fun all => elsewhere all.2]

end Lists

end ScopeForest

end BindingRepair.Script
