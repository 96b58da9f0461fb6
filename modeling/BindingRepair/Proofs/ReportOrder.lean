/-
# The order of a report

A report may list the findings of a file in any order. Which names are never declared, which of them are the
values of setters, and which bindings are unused is told by the findings as a whole, and what is imported from a
module is a set. So the plan for the file holds the same fixes, and counts as many findings without a fix,
whatever comes first.
-/

import BindingRepair.Proofs.PlanContents

namespace BindingRepair

/-! ### Tables of imports -/

namespace ImportTable

variable {first second table : ImportTable}

/-- A table as requests make it: the modules are in order, and what is imported from each is a set of some names. -/
structure IsTidy (table : ImportTable) : Prop where
  ascending : table.Ascending before
  nonempty : ∀ entry ∈ table, entry.2 ≠ []
  names : ∀ entry ∈ table, entry.2.Pairwise (· < ·)

theorem isTidy_foldl_request (requests : List ImportRequest) : IsTidy (requests.foldl request []) where
  ascending := ascending_foldl_request .nil
  nonempty := ne_nil_of_mem_foldl_request (List.forall_mem_nil _)
  names := pairwise_foldl_request (List.forall_mem_nil _)

/-- The names that are listed under a module are those of its entry. -/
theorem IsTidy.lists_iff (tidy : table.IsTidy) {module name : String} {onlyIfImported : Bool} {names : NameSet}
    (here : ((module, onlyIfImported), names) ∈ table) :
    table.Lists ⟨module, onlyIfImported, name⟩ ↔ name ∈ names := by
  constructor
  · rintro ⟨names', here', listed⟩
    have found := (tidy.ascending.lookup_eq_some_iff isOrder_before).mpr here
    rw [(tidy.ascending.lookup_eq_some_iff isOrder_before).mpr here'] at found
    rwa [← Option.some.inj found]
  · exact fun listed => ⟨names, here, listed⟩

/-- What one tidy table holds is in every other one that lists the same names. -/
theorem IsTidy.mem_of_lists (tidy : first.IsTidy) (tidy' : second.IsTidy)
    (same : ∀ r, first.Lists r ↔ second.Lists r) {entry : (String × Bool) × NameSet} (here : entry ∈ first) :
    entry ∈ second := by
  obtain ⟨⟨module, onlyIfImported⟩, names⟩ := entry
  obtain ⟨name, listed⟩ := List.exists_mem_of_ne_nil names (tidy.nonempty _ here)
  obtain ⟨names', here', -⟩ := (same ⟨module, onlyIfImported, name⟩).mp ((tidy.lists_iff here).mpr listed)
  have members (other : String) : other ∈ names ↔ other ∈ names' := by
    rw [← tidy.lists_iff here, same, tidy'.lists_iff here']
  have equal : names = names' :=
    List.Pairwise.eq_of_mem_iff (tidy.names _ here) (tidy'.names _ here') members
  rwa [equal]

/-- A tidy table is told by the names that it lists. -/
theorem IsTidy.eq_of_lists (tidy : first.IsTidy) (tidy' : second.IsTidy)
    (same : ∀ r, first.Lists r ↔ second.Lists r) : first = second :=
  tidy.ascending.eq_of_mem_iff isOrder_before tidy'.ascending fun _ =>
    ⟨tidy.mem_of_lists tidy' same, tidy'.mem_of_lists tidy fun r => (same r).symm⟩

/-- The order of requests does not matter. -/
theorem foldl_request_eq_of_perm {requests requests' : List ImportRequest} (permuted : requests.Perm requests') :
    requests.foldl request [] = requests'.foldl request [] := by
  refine (isTidy_foldl_request requests).eq_of_lists (isTidy_foldl_request requests') fun r => ?_
  rw [lists_foldl_request _ .nil, lists_foldl_request _ .nil, permuted.mem_iff]

end ImportTable

/-! ### Names that are never declared -/

section Permuted

variable {first second : List Diagnostic}

theorem nodup_undeclaredNames (diagnostics : List Diagnostic) : (undeclaredNames diagnostics).Nodup := by
  induction diagnostics using List.reverseRecOn with
  | nil => exact .nil
  | append_singleton diagnostics d ih =>
      rw [undeclaredNames_concat]
      split
      · next new =>
        exact List.nodup_append.mpr ⟨ih, List.nodup_singleton _, fun name here other one same =>
          new.2 (List.mem_singleton.mp one ▸ same ▸ here)⟩
      · rwa [List.append_nil]

/-- Each name is listed once, wherever it is reported first. -/
theorem perm_undeclaredNames (permuted : first.Perm second) :
    (undeclaredNames first).Perm (undeclaredNames second) := by
  refine (List.perm_ext_iff_of_nodup (nodup_undeclaredNames _) (nodup_undeclaredNames _)).mpr fun name => ?_
  simp only [mem_undeclaredNames, IsUndeclared, permuted.mem_iff]

theorem perm_unusedBindings (v : Vocabulary) (permuted : first.Perm second) :
    (unusedBindings v first).Perm (unusedBindings v second) :=
  permuted.filter _

/-- The values of setters, whether they or their setters are reported first. -/
theorem perm_pairValues (v : Vocabulary) (permuted : first.Perm second) :
    (((undeclaredNames first).filterMap v.declaredPair?).map (·.1)).Perm
      (((undeclaredNames second).filterMap v.declaredPair?).map (·.1)) :=
  ((perm_undeclaredNames permuted).filterMap _).map _

/-! ### Fixes and counts -/

theorem importTable_eq_of_perm (v : Vocabulary) (permuted : first.Perm second) :
    importTable v first = importTable v second :=
  ImportTable.foldl_request_eq_of_perm ((perm_undeclaredNames permuted).filterMap _)

/-- A name needs a variable of its own or not, wherever its setter is reported. -/
theorem needsVariable_eq_of_perm (v : Vocabulary) {values values' : List String} (permuted : values.Perm values') :
    v.needsVariable values = v.needsVariable values' := by
  funext name
  rw [Vocabulary.needsVariable, Vocabulary.needsVariable, permuted.contains_eq]

theorem isExemptName_eq_of_perm (v : Vocabulary) {values values' : List String} (permuted : values.Perm values') :
    isExemptName v values = isExemptName v values' := by
  funext name
  rw [isExemptName, isExemptName, permuted.contains_eq]

/-- The fixes that are called for are the same, however the findings are ordered. -/
theorem perm_requiredFixes (v : Vocabulary) (permuted : first.Perm second) :
    (requiredFixes v first).Perm (requiredFixes v second) := by
  have names := perm_undeclaredNames permuted
  have tables := importTable_eq_of_perm v permuted
  have singles := needsVariable_eq_of_perm v (perm_pairValues v permuted)
  unfold importTable at tables
  simp only [requiredFixes, tables, singles]
  refine ((List.Perm.append (.refl _) ?_).append ?_).append ?_
  · exact (names.filterMap _).map _
  · exact (names.filter _).map _
  · exact (perm_unusedBindings v permuted).map _

theorem exemptCount_eq_of_perm (v : Vocabulary) (permuted : first.Perm second) :
    exemptCount v first = exemptCount v second := by
  have names := perm_undeclaredNames permuted
  simp only [exemptCount, isExemptName_eq_of_perm v (perm_pairValues v permuted), permuted.length_eq,
    (perm_unusedBindings v permuted).length_eq, names.length_eq, names.countP_eq]

end Permuted

/-- A plan holds the fixes that are called for, each under the identifier that follows from its file. -/
theorem mem_fixes_planFile {v : Vocabulary} {filePath : String} {diagnostics : List Diagnostic} {planned : PlannedFix} :
    planned ∈ (planFile v filePath diagnostics).fixes ↔
      planned = .ofFix filePath planned.fix ∧ planned.fix ∈ requiredFixes v diagnostics := by
  constructor
  · intro here
    exact ⟨ids_planFile v filePath diagnostics planned here,
      mem_contents_planFile.mp (List.mem_map_of_mem here)⟩
  · rintro ⟨own, required⟩
    obtain ⟨other, here, same⟩ := List.mem_map.mp (mem_contents_planFile.mpr required)
    rw [own, ← same, ← ids_planFile v filePath diagnostics other here]
    exact here

/-- The plan for a file does not depend on the order in which its findings are reported. -/
theorem plan_ignores_report_order (v : Vocabulary) (filePath : String) {first second : List Diagnostic}
    (permuted : first.Perm second) :
    (planFile v filePath first).fixes.Perm (planFile v filePath second).fixes ∧
      (planFile v filePath first).exempt = (planFile v filePath second).exempt := by
  constructor
  · have nodup (diagnostics : List Diagnostic) : (planFile v filePath diagnostics).fixes.Nodup :=
      .of_map _ (nodup_contents_planFile v filePath diagnostics)
    refine (List.perm_ext_iff_of_nodup (nodup first) (nodup second)).mpr fun planned => ?_
    rw [mem_fixes_planFile, mem_fixes_planFile, (perm_requiredFixes v permuted).mem_iff]
  · have exempt (diagnostics : List Diagnostic) :
        (planFile v filePath diagnostics).exempt = exemptCount v diagnostics :=
      FixPlan.exempt_foldl_push _ _
    rw [exempt, exempt, exemptCount_eq_of_perm v permuted]

/-- A value is reported in front of its setter and again behind it, and an unused binding is reported twice. -/
def surroundedSetter : List Diagnostic :=
  [⟨"src/A.js", .undeclaredReference, "count", 2, 3, .mustFix, ""⟩, ⟨"src/A.js", .unusedBinding, "x", 4, 7, .mustFix, ""⟩,
    ⟨"src/A.js", .undeclaredReference, "setCount", 5, 3, .mustFix, ""⟩,
    ⟨"src/A.js", .undeclaredReference, "count", 6, 3, .mustFix, ""⟩,
    ⟨"src/A.js", .undeclaredReference, "Trash", 7, 3, .mustFix, ""⟩,
    ⟨"src/A.js", .unusedBinding, "x", 4, 7, .mustFix, ""⟩, ⟨"src/A.js", .unusedBinding, "_y", 8, 7, .mustFix, ""⟩]

/-- Reported backwards, the findings lead to the same fixes, and as many of them lead nowhere. -/
theorem plan_of_surroundedSetter_backwards :
    surroundedSetter.Perm surroundedSetter.reverse ∧
      (planFile {} "src/A.js" surroundedSetter).fixes.Perm (planFile {} "src/A.js" surroundedSetter.reverse).fixes ∧
      (planFile {} "src/A.js" surroundedSetter).exempt = (planFile {} "src/A.js" surroundedSetter.reverse).exempt ∧
      exemptCount {} surroundedSetter = 3 := by
  have permuted : surroundedSetter.Perm surroundedSetter.reverse := by decide
  obtain ⟨fixes, exempt⟩ := plan_ignores_report_order {} "src/A.js" permuted
  exact ⟨permuted, fixes, exempt, by decide +kernel⟩

end BindingRepair
