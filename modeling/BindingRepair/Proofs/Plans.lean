/-
# Proper plans

The fixes of a plan come pass by pass. A plan that follows from diagnostics is proper: the names that it
imports are sets, and it renames no binding that bears the mark of an unused one already.
-/

import BindingRepair.Planning
import Mathlib.Data.String.Basic

namespace BindingRepair

namespace NameSet

/-- A set stays in ascending order with one more name. -/
theorem pairwise_insert {name : String} {names : NameSet} (ascending : names.Pairwise (· < ·)) :
    (insert name names).Pairwise (· < ·) ∧ ∀ other ∈ insert name names, other = name ∨ other ∈ names := by
  induction names with
  | nil => exact ⟨List.pairwise_singleton .., fun other here => .inl (List.mem_singleton.mp here)⟩
  | cons n ns ih =>
      obtain ⟨before, ascendingRest⟩ := List.pairwise_cons.mp ascending
      unfold insert
      by_cases same : name = n
      · rw [if_pos same]
        exact ⟨ascending, fun other here => .inr here⟩
      · rw [if_neg same]
        by_cases earlier : name < n
        · rw [if_pos earlier]
          refine ⟨List.pairwise_cons.mpr ⟨fun other here => ?_, ascending⟩, fun other => List.mem_cons.mp⟩
          rcases List.mem_cons.mp here with rfl | here
          · exact earlier
          · exact earlier.trans (before other here)
        · rw [if_neg earlier]
          obtain ⟨ascending', known⟩ := ih ascendingRest
          refine ⟨List.pairwise_cons.mpr ⟨fun other here => ?_, ascending'⟩, fun other here => ?_⟩
          · rcases known other here with rfl | here
            · exact lt_of_le_of_ne (not_lt.mp earlier) (Ne.symm same)
            · exact before other here
          · rcases List.mem_cons.mp here with rfl | here
            · exact .inr List.mem_cons_self
            · exact (known other here).imp_right (List.mem_cons_of_mem n)

end NameSet

/-! ### Passes -/

/-- The passes one after another. -/
theorem FixPlan.inPassOrder_eq (plan : FixPlan) : plan.inPassOrder =
    plan.fixes.filter (·.fix.pass = .imports) ++ (plan.fixes.filter (·.fix.pass = .declarations) ++
      plan.fixes.filter (·.fix.pass = .renames)) := by
  simp [inPassOrder, Pass.all]

theorem FixPlan.mem_fixes_of_mem_inPassOrder {plan : FixPlan} {planned : PlannedFix}
    (here : planned ∈ plan.inPassOrder) : planned ∈ plan.fixes := by
  obtain ⟨pass, -, listed⟩ := List.mem_flatMap.mp here
  exact List.mem_of_mem_filter listed

/-- The passes are in order. -/
theorem FixPlan.pairwise_inPassOrder (plan : FixPlan) :
    plan.inPassOrder.Pairwise fun a b => a.fix.pass.number ≤ b.fix.pass.number := by
  have passOf {pass : Pass} {planned : PlannedFix}
      (here : planned ∈ plan.fixes.filter (·.fix.pass = pass)) : planned.fix.pass = pass := by
    simpa using (List.mem_filter.mp here).2
  have within (pass : Pass) : (plan.fixes.filter (·.fix.pass = pass)).Pairwise
      fun a b => a.fix.pass.number ≤ b.fix.pass.number :=
    List.pairwise_of_forall_mem_list fun a hereA b hereB => by rw [passOf hereA, passOf hereB]
  rw [plan.inPassOrder_eq, List.pairwise_append, List.pairwise_append]
  refine ⟨within _, ⟨within _, within _, fun a hereA b hereB => ?_⟩, fun a hereA b hereB => ?_⟩
  · rw [passOf hereA, passOf hereB]
    decide
  · rw [passOf hereA]
    exact Nat.zero_le _

/-! ### Plans that follow from diagnostics -/

/-- A plan as it is made: the names of an import are a set, and no fix renames a binding whose name bears
the mark of an unused one already. -/
structure FixPlan.IsProper (plan : FixPlan) (mark : String) : Prop where
  nodup : ∀ planned ∈ plan.fixes, ∀ module names onlyIfImported,
    planned.fix = .importMerge module names onlyIfImported → names.Nodup
  unmarked : ∀ planned ∈ plan.fixes, ∀ position name,
    planned.fix = .rename position name → ¬mark.toList <+: name.toList

/-- An entry of a changed table is an old one or the changed one. -/
theorem SortedTable.mem_alter {α β : Type} {before : α → α → Bool} {key : α} {change : Option β → β}
    {table : SortedTable α β} {entry : α × β} (here : entry ∈ table.alter before key change) :
    entry ∈ table ∨ ∃ old, entry.2 = change old ∧ ∀ value ∈ old, ∃ k, (k, value) ∈ table := by
  induction table with
  | nil => exact .inr ⟨none, by rw [List.mem_singleton.mp here], nofun⟩
  | cons first rest ih =>
      obtain ⟨k, v⟩ := first
      unfold alter at here
      split at here
      · rcases List.mem_cons.mp here with rfl | here
        · exact .inr ⟨none, rfl, nofun⟩
        · exact .inl here
      · split at here
        · rcases List.mem_cons.mp here with rfl | here
          · exact .inl List.mem_cons_self
          · rcases ih here with old | ⟨old, changed, known⟩
            · exact .inl (List.mem_cons_of_mem _ old)
            · refine .inr ⟨old, changed, fun value has => ?_⟩
              obtain ⟨k', here⟩ := known value has
              exact ⟨k', List.mem_cons_of_mem _ here⟩
        · rcases List.mem_cons.mp here with rfl | here
          · refine .inr ⟨some v, rfl, fun value has => ⟨k, ?_⟩⟩
            cases has
            exact List.mem_cons_self
          · exact .inl (List.mem_cons_of_mem _ here)

/-- The names that are requested from a module are a set. -/
theorem ImportTable.pairwise_foldl_request {requests : List ImportRequest} {table : ImportTable}
    (ascending : ∀ entry ∈ table, entry.2.Pairwise (· < ·)) :
    ∀ entry ∈ requests.foldl ImportTable.request table, entry.2.Pairwise (· < ·) := by
  induction requests generalizing table with
  | nil => exact ascending
  | cons r requests ih =>
      refine ih fun entry here => ?_
      rcases SortedTable.mem_alter here with old | ⟨old, changed, known⟩
      · exact ascending entry old
      · rw [changed]
        refine (NameSet.pairwise_insert ?_).1
        cases old with
        | none => exact .nil
        | some names =>
            obtain ⟨k, here⟩ := known names rfl
            exact ascending _ here

theorem FixPlan.mem_foldl_push {fixes : List Fix} {plan : FixPlan} {planned : PlannedFix}
    (here : planned ∈ (fixes.foldl FixPlan.push plan).fixes) :
    planned ∈ plan.fixes ∨ planned.fix ∈ fixes := by
  induction fixes generalizing plan with
  | nil => exact .inl here
  | cons fix fixes ih =>
      rcases ih here with pushed | later
      · unfold FixPlan.push at pushed
        split at pushed
        · exact .inl pushed
        · rcases List.mem_append.mp pushed with old | new
          · exact .inl old
          · rw [List.mem_singleton.mp new]
            exact .inr List.mem_cons_self
      · exact .inr (List.mem_cons_of_mem fix later)

/-- The plan that the diagnostics of a file lead to is proper. -/
theorem isProper_planFile {v : Vocabulary} (nonempty : v.reservedPrefix ≠ "") (filePath : String)
    (diagnostics : List Diagnostic) : (planFile v filePath diagnostics).IsProper v.reservedPrefix where
  nodup planned here module names onlyIfImported fix := by
    have required := (FixPlan.mem_foldl_push here).resolve_left List.not_mem_nil
    rw [fix, requiredFixes] at required
    simp only [List.mem_append, List.mem_map, reduceCtorEq, and_false, exists_false, or_false] at required
    obtain ⟨entry, inTable, same⟩ := required
    cases same
    exact (ImportTable.pairwise_foldl_request (List.forall_mem_nil _) entry inTable).imp fun before => before.ne
  unmarked planned here position name fix marked := by
    have required := (FixPlan.mem_foldl_push here).resolve_left List.not_mem_nil
    rw [fix, requiredFixes] at required
    simp only [List.mem_append, List.mem_map, reduceCtorEq, and_false, exists_false, false_or,
      Fix.rename.injEq] at required
    obtain ⟨d, unused, -, rfl⟩ := required
    have mustBeUsed := (Bool.and_eq_true_iff.mp (List.mem_filter.mp unused).2).2
    rw [Vocabulary.mayGoUnused, Bool.not_eq_true', Bool.or_eq_false_iff, Bool.and_eq_false_iff] at mustBeUsed
    rcases mustBeUsed.1 with empty | unmarked
    · exact nonempty (by simpa using empty)
    · rw [List.isPrefixOf_iff_prefix.mpr marked] at unmarked
      cases unmarked

end BindingRepair
