/-
# What a plan holds

The plan for a file holds the fixes that its diagnostics call for and no others, each once. What calls for a
fix is read off the diagnostics here without regard to the way in which the plan is made.

Every diagnostic is accounted for: it calls for a fix, or it is counted as one that does not. A binding that is
reported as unused repeatedly is the exception, whose repetitions are not counted.
-/

import BindingRepair.Proofs.RunAccounts

namespace BindingRepair

/-! ### Names to be imported -/

namespace NameSet

theorem mem_insert {name other : String} {names : NameSet} :
    other ∈ insert name names ↔ other = name ∨ other ∈ names := by
  induction names with
  | nil => simp [insert]
  | cons n ns ih =>
      unfold insert
      by_cases same : name = n
      · rw [if_pos same, same, List.mem_cons]
        exact ⟨.inr, fun known => known.elim .inl id⟩
      · rw [if_neg same]
        by_cases earlier : name < n
        · rw [if_pos earlier, List.mem_cons]
        · rw [if_neg earlier, List.mem_cons, List.mem_cons, ih]
          exact or_left_comm

end NameSet

namespace ImportTable

/-- Modules are ordered by name, and then by whether something must be imported from them already. -/
theorem isOrder_before : SortedTable.IsOrder before where
  irrefl a := by simp [before]
  trans a b c := by
    simp only [before, Bool.or_eq_true, decide_eq_true_eq, Bool.and_eq_true, beq_iff_eq, Bool.not_eq_true']
    rintro (less | ⟨⟨same, -⟩, second⟩) (less' | ⟨⟨same', first'⟩, second'⟩)
    · exact .inl (less.trans less')
    · exact .inl (same' ▸ less)
    · exact .inl (same ▸ less')
    · rw [second] at first'
      cases first'
  eq_of_neither a b := by
    simp only [before, Bool.or_eq_false_iff, decide_eq_false_iff_not, not_lt]
    rintro ⟨le, notFirst⟩ ⟨ge, notFirst'⟩
    have same : a.1 = b.1 := le_antisymm ge le
    refine Prod.ext same ?_
    rw [same, beq_self_eq_true] at notFirst notFirst'
    cases first : a.2 <;> cases second : b.2 <;> simp [first, second] at notFirst notFirst' ⊢

variable {requests : List ImportRequest} {table : ImportTable}

theorem ascending_request (ascending : table.Ascending before) (r : ImportRequest) :
    (table.request r).Ascending before :=
  ascending.alter isOrder_before

theorem ascending_foldl_request (ascending : table.Ascending before) :
    (requests.foldl request table).Ascending before := by
  induction requests generalizing table with
  | nil => exact ascending
  | cons r requests ih => exact ih (ascending_request ascending r)

/-- No module is listed without a name. -/
theorem ne_nil_of_mem_foldl_request (nonempty : ∀ entry ∈ table, entry.2 ≠ []) :
    ∀ entry ∈ requests.foldl request table, entry.2 ≠ [] := by
  induction requests generalizing table with
  | nil => exact nonempty
  | cons r requests ih =>
      refine ih fun entry here => ?_
      rcases SortedTable.mem_alter here with old | ⟨old, changed, -⟩
      · exact nonempty entry old
      · rw [changed]
        exact List.ne_nil_of_mem (NameSet.mem_insert.mpr (.inl rfl))

/-- A table lists a name under a module. -/
def Lists (table : ImportTable) (r : ImportRequest) : Prop :=
  ∃ names, ((r.module, r.onlyIfImported), names) ∈ table ∧ r.name ∈ names

/-- One more request lists one more name. -/
theorem lists_request (ascending : table.Ascending before) {r other : ImportRequest} :
    (table.request r).Lists other ↔ table.Lists other ∨ other = r := by
  unfold Lists request
  simp only [SortedTable.mem_alter_iff isOrder_before ascending]
  by_cases same : (other.module, other.onlyIfImported) = (r.module, r.onlyIfImported)
  · have names : ((other.module, other.onlyIfImported), (table.lookup (r.module, r.onlyIfImported)).getD []) ∈ table ∨
        (table.lookup (r.module, r.onlyIfImported)).getD [] = [] := by
      cases found : table.lookup (r.module, r.onlyIfImported) with
      | none => exact .inr rfl
      | some names => exact .inl (same ▸ (ascending.lookup_eq_some_iff isOrder_before).mp found)
    constructor
    · rintro ⟨_, ⟨differs, -⟩ | changed, listed⟩
      · exact absurd same differs
      · obtain ⟨-, rfl⟩ := Prod.mk.inj changed
        rcases NameSet.mem_insert.mp listed with name | old
        · obtain ⟨module, onlyIfImported⟩ := Prod.mk.inj same
          cases other
          cases r
          simp_all
        · rcases names with here | none
          · exact .inl ⟨_, here, old⟩
          · rw [none] at old
            cases old
    · rintro (⟨names', here, listed⟩ | rfl)
      · have found := (ascending.lookup_eq_some_iff isOrder_before).mpr (same ▸ here)
        exact ⟨_, .inr (by rw [same, found]; rfl), NameSet.mem_insert.mpr (.inr listed)⟩
      · exact ⟨_, .inr rfl, NameSet.mem_insert.mpr (.inl rfl)⟩
  · constructor
    · rintro ⟨names, ⟨-, here⟩ | changed, listed⟩
      · exact .inl ⟨names, here, listed⟩
      · exact absurd (Prod.mk.inj changed).1 same
    · rintro (⟨names, here, listed⟩ | rfl)
      · exact ⟨names, .inl ⟨same, here⟩, listed⟩
      · exact absurd rfl same

/-- The names that are listed are those that are requested. -/
theorem lists_foldl_request (requests : List ImportRequest) (ascending : table.Ascending before) {r : ImportRequest} :
    ImportTable.Lists (requests.foldl request table) r ↔ table.Lists r ∨ r ∈ requests := by
  induction requests generalizing table with
  | nil => simp
  | cons first requests ih =>
      rw [List.foldl_cons, ih (ascending_request ascending first), lists_request ascending, List.mem_cons, or_assoc]

end ImportTable

/-! ### Fixes without repetitions -/

namespace FixPlan

/-- The fixes of a plan without their identifiers. -/
def contents (plan : FixPlan) : List Fix :=
  plan.fixes.map (·.fix)

theorem contents_push (plan : FixPlan) (fix : Fix) :
    (plan.push fix).contents = if fix ∈ plan.contents then plan.contents else plan.contents ++ [fix] := by
  have known : plan.fixes.any (·.fix = fix) = true ↔ fix ∈ plan.contents := by
    simp [contents]
  unfold push
  by_cases here : fix ∈ plan.contents
  · rw [if_pos (known.mpr here), if_pos here]
  · rw [if_neg (known.not.mpr here), if_neg here, contents, List.map_append]
    rfl

theorem mem_contents_foldl_push (fixes : List Fix) (plan : FixPlan) {fix : Fix} :
    fix ∈ (fixes.foldl push plan).contents ↔ fix ∈ plan.contents ∨ fix ∈ fixes := by
  induction fixes generalizing plan with
  | nil => simp
  | cons first fixes ih =>
      have one : fix ∈ (plan.push first).contents ↔ fix ∈ plan.contents ∨ fix = first := by
        rw [contents_push]
        split
        · next here => exact ⟨.inl, fun known => known.elim id (· ▸ here)⟩
        · rw [List.mem_append, List.mem_singleton]
      rw [List.foldl_cons, ih, one, List.mem_cons, or_assoc]

theorem nodup_contents_foldl_push (fixes : List Fix) (plan : FixPlan) (nodup : plan.contents.Nodup) :
    (fixes.foldl push plan).contents.Nodup := by
  induction fixes generalizing plan with
  | nil => exact nodup
  | cons fix fixes ih =>
      refine ih _ ?_
      rw [contents_push]
      split
      · exact nodup
      · next new =>
        exact List.nodup_append.mpr ⟨nodup, List.pairwise_singleton .., fun other here a one same =>
          new (List.mem_singleton.mp one ▸ same ▸ here)⟩

/-- Each fix has the identifier that follows from its file and the fix. -/
theorem ids_foldl_push (fixes : List Fix) (plan : FixPlan)
    (own : ∀ planned ∈ plan.fixes, planned = .ofFix plan.filePath planned.fix) :
    ∀ planned ∈ (fixes.foldl push plan).fixes, planned = .ofFix plan.filePath planned.fix := by
  induction fixes generalizing plan with
  | nil => exact own
  | cons fix fixes ih =>
      have samePath : (plan.push fix).filePath = plan.filePath := by
        unfold push
        split <;> rfl
      rw [← samePath]
      refine ih _ fun planned here => ?_
      rw [samePath]
      unfold push at here
      split at here
      · exact own planned here
      · rcases List.mem_append.mp here with old | new
        · exact own planned old
        · rw [List.mem_singleton.mp new]
          rfl

end FixPlan

/-! ### What diagnostics call for -/

section Calls

variable (v : Vocabulary) (diagnostics : List Diagnostic)

/-- Some diagnostic reports the name as never declared. -/
def IsUndeclared (name : String) : Prop :=
  ∃ d ∈ diagnostics, d.ruleKind = .undeclaredReference ∧ d.symbolName = name

/-- The names that undeclared names call to be imported: themselves, or the state primitive where a setter and its
value are to be declared. -/
inductive CallsForImport : ImportRequest → Prop
  | capability {name module : String} (undeclared : IsUndeclared diagnostics name)
      (remedy : v.remedy name = .capability module) : CallsForImport ⟨module, false, name⟩
  | icon {name : String} (undeclared : IsUndeclared diagnostics name)
      (remedy : v.remedy name = .icon v.iconModule) : CallsForImport ⟨v.iconModule, true, name⟩
  | state {value setter : String} (undeclared : IsUndeclared diagnostics setter)
      (remedy : v.remedy setter = .pair value setter) : CallsForImport ⟨v.stateModule, false, v.statePrimitive⟩

/-- A plan holds what diagnostics call for. -/
structure FixPlan.Answers (plan : FixPlan) (path : String) : Prop where
  filePath : plan.filePath = path
  /-- Every fix has its own identifier. -/
  ids : ∀ planned ∈ plan.fixes, planned = .ofFix path planned.fix
  nodup : (plan.fixes.map (·.fix)).Nodup
  inOrder : plan.inPassOrder = plan.fixes
  /-- The names to be imported from a module stand in one fix. -/
  oneMerge : ∀ module names names' onlyIfImported, .importMerge module names onlyIfImported ∈ plan.fixes.map (·.fix) →
    .importMerge module names' onlyIfImported ∈ plan.fixes.map (·.fix) → names = names'
  /-- They are a set, and there are some. -/
  names : ∀ module names onlyIfImported, .importMerge module names onlyIfImported ∈ plan.fixes.map (·.fix) →
    names ≠ [] ∧ names.Pairwise (· < ·)
  imports : ∀ module onlyIfImported name,
    (∃ names, .importMerge module names onlyIfImported ∈ plan.fixes.map (·.fix) ∧ name ∈ names) ↔
      CallsForImport v diagnostics ⟨module, onlyIfImported, name⟩
  pairs : ∀ value setter, .pairedDeclaration value setter ∈ plan.fixes.map (·.fix) ↔
    IsUndeclared diagnostics setter ∧ v.remedy setter = .pair value setter
  /-- A variable is declared unless it is the value of a setter. -/
  singles : ∀ name, .singleDeclaration name ∈ plan.fixes.map (·.fix) ↔
    IsUndeclared diagnostics name ∧ v.remedy name = .placeholder ∧
      ¬∃ setter, IsUndeclared diagnostics setter ∧ v.remedy setter = .pair name setter
  renames : ∀ position name, .rename position name ∈ plan.fixes.map (·.fix) ↔
    ∃ d ∈ diagnostics, d.ruleKind = .unusedBinding ∧ d.symbolName = name ∧ position = ⟨d.line, d.column - 1⟩ ∧
      v.mayGoUnused name = false

variable {v diagnostics}

theorem mem_undeclaredNames {name : String} : name ∈ undeclaredNames diagnostics ↔ IsUndeclared diagnostics name := by
  simp [undeclaredNames, IsUndeclared, and_assoc]

/-- The remedies that fit a name where none of those before them does. -/
inductive Vocabulary.Fits (v : Vocabulary) (name : String) : Remedy → Prop
  | capability {module : String} (known : v.moduleOf? name = some module) : Fits v name (.capability module)
  | pair {value : String} (unknown : v.moduleOf? name = none) (setter : v.valueOfSetter? name = some value) :
    Fits v name (.pair value name)
  | global (unknown : v.moduleOf? name = none) (plain : v.valueOfSetter? name = none)
    (provided : v.isGlobal name = true) : Fits v name .global
  | icon (unknown : v.moduleOf? name = none) (plain : v.valueOfSetter? name = none)
    (own : v.isGlobal name = false) (upper : startsUpper name = true) : Fits v name (.icon v.iconModule)
  | placeholder (unknown : v.moduleOf? name = none) (plain : v.valueOfSetter? name = none)
    (own : v.isGlobal name = false) (lower : startsUpper name = false) : Fits v name .placeholder

/-- The remedy for a name is the one that fits it. -/
theorem Vocabulary.fits_remedy (v : Vocabulary) (name : String) : v.Fits name (v.remedy name) := by
  unfold Vocabulary.remedy
  split
  · next known => exact .capability known
  · next unknown =>
    split
    · next setter => exact .pair unknown setter
    · next plain =>
      split
      · next provided => exact .global unknown plain provided
      · next own =>
        rw [Bool.not_eq_true] at own
        split
        · next upper => exact .icon unknown plain own upper
        · next lower => exact .placeholder unknown plain own (Bool.eq_false_iff.mpr lower)

/-- Only a name that is to be a setter is declared with a value. -/
theorem Vocabulary.setter_of_remedy {name value setter : String} (remedy : v.remedy name = .pair value setter) :
    setter = name := by
  have fits := v.fits_remedy name
  rw [remedy] at fits
  cases fits
  rfl

/-- All icons are imported from one module. -/
theorem Vocabulary.iconModule_of_remedy {name module : String} (remedy : v.remedy name = .icon module) :
    module = v.iconModule := by
  have fits := v.fits_remedy name
  rw [remedy] at fits
  cases fits
  rfl

theorem mem_declaredPairs {value setter : String} :
    (value, setter) ∈ (undeclaredNames diagnostics).filterMap v.declaredPair? ↔
      IsUndeclared diagnostics setter ∧ v.remedy setter = .pair value setter := by
  rw [List.mem_filterMap]
  constructor
  · rintro ⟨name, undeclared, declared⟩
    unfold Vocabulary.declaredPair? at declared
    split at declared
    · next remedy =>
      cases declared
      obtain rfl := Vocabulary.setter_of_remedy remedy
      exact ⟨mem_undeclaredNames.mp undeclared, remedy⟩
    · cases declared
  · rintro ⟨undeclared, remedy⟩
    exact ⟨setter, mem_undeclaredNames.mpr undeclared, by rw [Vocabulary.declaredPair?, remedy]⟩

theorem mem_pairValues {value : String} :
    value ∈ ((undeclaredNames diagnostics).filterMap v.declaredPair?).map (·.1) ↔
      ∃ setter, IsUndeclared diagnostics setter ∧ v.remedy setter = .pair value setter := by
  simp only [List.mem_map, Prod.exists, mem_declaredPairs]
  constructor
  · rintro ⟨_, setter, pair, rfl⟩
    exact ⟨setter, pair⟩
  · rintro ⟨setter, pair⟩
    exact ⟨value, setter, pair, rfl⟩

theorem mem_importRequests {r : ImportRequest} :
    r ∈ (undeclaredNames diagnostics).filterMap v.importRequest? ↔ CallsForImport v diagnostics r := by
  rw [List.mem_filterMap]
  constructor
  · rintro ⟨name, undeclared, requested⟩
    have undeclared := mem_undeclaredNames.mp undeclared
    unfold Vocabulary.importRequest? at requested
    split at requested
    · next remedy =>
      cases requested
      exact .capability undeclared remedy
    · next remedy =>
      cases requested
      obtain rfl := Vocabulary.setter_of_remedy remedy
      exact .state undeclared remedy
    · next remedy =>
      cases requested
      obtain rfl := Vocabulary.iconModule_of_remedy remedy
      exact .icon undeclared remedy
    · cases requested
    · cases requested
  · intro called
    cases called with
    | capability undeclared remedy =>
        exact ⟨_, mem_undeclaredNames.mpr undeclared, by rw [Vocabulary.importRequest?, remedy]⟩
    | icon undeclared remedy =>
        exact ⟨_, mem_undeclaredNames.mpr undeclared, by rw [Vocabulary.importRequest?, remedy]⟩
    | state undeclared remedy =>
        exact ⟨_, mem_undeclaredNames.mpr undeclared, by rw [Vocabulary.importRequest?, remedy]⟩

/-- The names to be imported, by their modules. -/
def importTable (v : Vocabulary) (diagnostics : List Diagnostic) : ImportTable :=
  ((undeclaredNames diagnostics).filterMap v.importRequest?).foldl ImportTable.request []

theorem nodup_contents_planFile (v : Vocabulary) (filePath : String) (diagnostics : List Diagnostic) :
    ((planFile v filePath diagnostics).fixes.map (·.fix)).Nodup :=
  FixPlan.nodup_contents_foldl_push _ _ List.nodup_nil

theorem ids_planFile (v : Vocabulary) (filePath : String) (diagnostics : List Diagnostic) :
    ∀ planned ∈ (planFile v filePath diagnostics).fixes, planned = .ofFix filePath planned.fix :=
  FixPlan.ids_foldl_push _ { filePath, exempt := exemptCount v diagnostics } (List.forall_mem_nil _)

theorem mem_contents_planFile {filePath : String} {fix : Fix} :
    fix ∈ (planFile v filePath diagnostics).fixes.map (·.fix) ↔ fix ∈ requiredFixes v diagnostics :=
  (FixPlan.mem_contents_foldl_push _ { filePath, exempt := exemptCount v diagnostics }).trans
    (or_iff_right List.not_mem_nil)

section Required

variable {module name value setter : String} {names : NameSet} {onlyIfImported : Bool} {position : Text.Position}

theorem importMerge_mem_requiredFixes : .importMerge module names onlyIfImported ∈ requiredFixes v diagnostics ↔
    ((module, onlyIfImported), names) ∈ importTable v diagnostics := by
  simp [requiredFixes, importTable]

theorem pairedDeclaration_mem_requiredFixes : .pairedDeclaration value setter ∈ requiredFixes v diagnostics ↔
    (value, setter) ∈ (undeclaredNames diagnostics).filterMap v.declaredPair? := by
  simp [requiredFixes]

theorem singleDeclaration_mem_requiredFixes : .singleDeclaration name ∈ requiredFixes v diagnostics ↔
    name ∈ undeclaredNames diagnostics ∧
      v.needsVariable (((undeclaredNames diagnostics).filterMap v.declaredPair?).map (·.1)) name = true := by
  simp [requiredFixes]

theorem rename_mem_requiredFixes : .rename position name ∈ requiredFixes v diagnostics ↔
    ∃ d ∈ unusedBindings v diagnostics, d.position = position ∧ d.symbolName = name := by
  simp [requiredFixes]

end Required

end Calls

/-- The plan for a file holds what its diagnostics call for, and nothing else. -/
theorem plan_answers_diagnostics (v : Vocabulary) (filePath : String) (diagnostics : List Diagnostic) :
    (planFile v filePath diagnostics).Answers v diagnostics filePath := by
  have ascending : (importTable v diagnostics).Ascending ImportTable.before :=
    ImportTable.ascending_foldl_request .nil
  refine ⟨RunOutcome.filePath_planFile .., ids_planFile v filePath diagnostics, nodup_contents_planFile ..,
    inPassOrder_planFile .., ?_, ?_, ?_, ?_, ?_, ?_⟩
  · intro module names names' onlyIfImported here here'
    rw [mem_contents_planFile, importMerge_mem_requiredFixes] at here here'
    have found := (ascending.lookup_eq_some_iff ImportTable.isOrder_before).mpr here
    rw [(ascending.lookup_eq_some_iff ImportTable.isOrder_before).mpr here'] at found
    exact (Option.some.inj found).symm
  · intro module names onlyIfImported here
    rw [mem_contents_planFile, importMerge_mem_requiredFixes] at here
    exact ⟨ImportTable.ne_nil_of_mem_foldl_request (List.forall_mem_nil _) _ here,
      ImportTable.pairwise_foldl_request (List.forall_mem_nil _) _ here⟩
  · intro module onlyIfImported name
    simp only [mem_contents_planFile, importMerge_mem_requiredFixes, ← mem_importRequests]
    have none : ¬ImportTable.Lists [] ⟨module, onlyIfImported, name⟩ := fun ⟨_, here, _⟩ => List.not_mem_nil here
    exact (ImportTable.lists_foldl_request _ .nil).trans (or_iff_right none)
  · intro value setter
    rw [mem_contents_planFile, pairedDeclaration_mem_requiredFixes, mem_declaredPairs]
  · intro name
    rw [mem_contents_planFile, singleDeclaration_mem_requiredFixes, mem_undeclaredNames, Vocabulary.needsVariable,
      Bool.and_eq_true_iff, beq_iff_eq, Bool.not_eq_true', ← Bool.not_eq_true, List.contains_iff_mem, mem_pairValues]
  · intro position name
    rw [mem_contents_planFile, rename_mem_requiredFixes]
    constructor
    · rintro ⟨d, unused, rfl, rfl⟩
      obtain ⟨here, required⟩ := List.mem_filter.mp unused
      obtain ⟨kind, mustBeUsed⟩ := Bool.and_eq_true_iff.mp required
      exact ⟨d, here, of_decide_eq_true kind, rfl, rfl, (Bool.not_eq_true' _).mp mustBeUsed⟩
    · rintro ⟨d, here, kind, rfl, rfl, mustBeUsed⟩
      refine ⟨d, List.mem_filter.mpr ⟨here, ?_⟩, rfl, rfl⟩
      rw [mustBeUsed, decide_eq_true kind]
      rfl

/-! ### The account of the diagnostics -/

/-- Whether two diagnostics report the same: a name that is never declared, or a binding of a name at a place that is
never used. -/
def Diagnostic.repeats (d earlier : Diagnostic) : Bool :=
  earlier.ruleKind = d.ruleKind && earlier.symbolName = d.symbolName &&
    (d.ruleKind = .undeclaredReference || earlier.position = d.position)

/-- Whether a diagnostic calls for no fix, whatever is reported before it: the name is provided by the runtime, or is
the value of a setter that is declared, or the binding may go unused. -/
def isFruitless (v : Vocabulary) (values : List String) (d : Diagnostic) : Bool :=
  match d.ruleKind with
  | .undeclaredReference => isExemptName v values d.symbolName
  | .unusedBinding => v.mayGoUnused d.symbolName

/-- Whether a diagnostic led to no fix behind earlier ones. -/
def leadsNowhere (v : Vocabulary) (values : List String) (earlier : List Diagnostic) (d : Diagnostic) : Bool :=
  isFruitless v values d || earlier.any d.repeats

/-- Whether a diagnostic calls again for a rename that an earlier one called for. -/
def repeatsRename (v : Vocabulary) (earlier : List Diagnostic) (d : Diagnostic) : Bool :=
  d.ruleKind = .unusedBinding && !v.mayGoUnused d.symbolName && earlier.any d.repeats

/-- How many diagnostics a test singles out that knows those before them. -/
def countBehind (test : List Diagnostic → Diagnostic → Bool) (earlier : List Diagnostic) : List Diagnostic → Nat
  | [] => 0
  | d :: rest => (test earlier d).toNat + countBehind test (earlier ++ [d]) rest

theorem countBehind_concat (test : List Diagnostic → Diagnostic → Bool) (earlier diagnostics : List Diagnostic)
    (d : Diagnostic) : countBehind test earlier (diagnostics ++ [d]) =
      countBehind test earlier diagnostics + (test (earlier ++ diagnostics) d).toNat := by
  induction diagnostics generalizing earlier with
  | nil => simp [countBehind]
  | cons first rest ih =>
      rw [List.cons_append, countBehind, countBehind, ih, Nat.add_assoc, List.append_assoc, List.singleton_append]

theorem undeclaredNames_concat (diagnostics : List Diagnostic) (d : Diagnostic) :
    undeclaredNames (diagnostics ++ [d]) = undeclaredNames diagnostics ++
      if d.ruleKind = .undeclaredReference ∧ d.symbolName ∉ undeclaredNames diagnostics then [d.symbolName] else [] := by
  unfold undeclaredNames
  rw [List.filter_append, List.map_append, List.eraseDups_append]
  congr 1
  by_cases kind : d.ruleKind = .undeclaredReference
  · simp only [List.filter_singleton, kind, decide_true, true_and, List.mem_eraseDups]
    by_cases known : d.symbolName ∈ (diagnostics.filter (·.ruleKind = .undeclaredReference)).map (·.symbolName)
    · simp [List.removeAll, known]
    · simp [List.removeAll, known, List.eraseDups_cons]
  · simp [kind]

theorem unusedBindings_concat (v : Vocabulary) (diagnostics : List Diagnostic) (d : Diagnostic) :
    unusedBindings v (diagnostics ++ [d]) = unusedBindings v diagnostics ++
      if d.ruleKind = .unusedBinding ∧ v.mayGoUnused d.symbolName = false then [d] else [] := by
  unfold unusedBindings
  rw [List.filter_append, List.filter_singleton]
  simp

/-- A name that is reported again has been reported before. -/
theorem any_repeats_undeclared {earlier : List Diagnostic} {d : Diagnostic} (kind : d.ruleKind = .undeclaredReference) :
    earlier.any d.repeats = true ↔ d.symbolName ∈ undeclaredNames earlier := by
  rw [mem_undeclaredNames, List.any_eq_true]
  simp [Diagnostic.repeats, kind, IsUndeclared]

/-- With each diagnostic the balance is kept: it calls for a fix, is fruitless, or repeats another. -/
theorem countBehind_leadsNowhere (v : Vocabulary) (values : List String) (diagnostics : List Diagnostic) :
    countBehind (leadsNowhere v values) [] diagnostics + (unusedBindings v diagnostics).length +
        (undeclaredNames diagnostics).length =
      diagnostics.length + (undeclaredNames diagnostics).countP (isExemptName v values) +
        countBehind (repeatsRename v) [] diagnostics := by
  induction diagnostics using List.reverseRecOn with
  | nil => rfl
  | append_singleton diagnostics d ih =>
      rw [countBehind_concat, countBehind_concat, undeclaredNames_concat, unusedBindings_concat, List.nil_append,
        List.length_append, List.length_append, List.length_append, List.countP_append, leadsNowhere, repeatsRename,
        isFruitless]
      cases kind : d.ruleKind with
      | undeclaredReference =>
          by_cases known : d.symbolName ∈ undeclaredNames diagnostics
          · have again := (any_repeats_undeclared kind).mpr known
            simp [known, again]
            omega
          · have new : diagnostics.any d.repeats = false :=
              Bool.eq_false_iff.mpr ((any_repeats_undeclared kind).not.mpr known)
            cases exempt : isExemptName v values d.symbolName <;> simp [known, new, exempt] <;> omega
      | unusedBinding =>
          cases v.mayGoUnused d.symbolName <;> cases diagnostics.any d.repeats <;> simp <;> omega

/-- Bindings that must be used and names are reported by different diagnostics. -/
theorem length_unusedBindings_add_le (v : Vocabulary) (diagnostics : List Diagnostic) :
    (unusedBindings v diagnostics).length + (undeclaredNames diagnostics).length ≤ diagnostics.length := by
  induction diagnostics using List.reverseRecOn with
  | nil => exact Nat.le_refl 0
  | append_singleton diagnostics d ih =>
      rw [undeclaredNames_concat, unusedBindings_concat, List.length_append, List.length_append, List.length_append]
      cases d.ruleKind <;> simp <;> split <;> simp <;> omega

theorem FixPlan.exempt_foldl_push (fixes : List Fix) (plan : FixPlan) :
    (fixes.foldl FixPlan.push plan).exempt = plan.exempt := by
  induction fixes generalizing plan with
  | nil => rfl
  | cons fix fixes ih =>
      rw [List.foldl_cons, ih, FixPlan.push]
      split <;> rfl

/-- The plan counts all diagnostics that led to no fix, but for those that call again for a rename. -/
theorem exempt_planFile_add (v : Vocabulary) (filePath : String) (diagnostics : List Diagnostic) :
    (planFile v filePath diagnostics).exempt + countBehind (repeatsRename v) [] diagnostics =
      countBehind (leadsNowhere v (((undeclaredNames diagnostics).filterMap v.declaredPair?).map (·.1))) [] diagnostics := by
  have exempt : (planFile v filePath diagnostics).exempt = exemptCount v diagnostics :=
    FixPlan.exempt_foldl_push _ _
  have balance := countBehind_leadsNowhere v
    (((undeclaredNames diagnostics).filterMap v.declaredPair?).map (·.1)) diagnostics
  have apart := length_unusedBindings_add_le v diagnostics
  rw [exempt, exemptCount]
  omega

end BindingRepair
