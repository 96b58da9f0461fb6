/-
# Names that the runtime provides

A name that the runtime provides is neither imported nor declared by itself. Remedies are tried one after another,
though, and that of setters comes before the runtime is asked: a name that begins as setters do is declared
together with its value, whoever provides the two.
-/

import BindingRepair.Proofs.PlanContents

namespace BindingRepair

/-- The names that a fix imports or declares. -/
def Fix.introduced : Fix → List String
  | .rename .. => []
  | .importMerge _ names _ => names
  | .pairedDeclaration value setter => [value, setter]
  | .singleDeclaration name => [name]

namespace Vocabulary

variable {v : Vocabulary}

/-- The runtime provides none of the names that modules are known to export, nor the state primitive. -/
structure SparesGlobals (v : Vocabulary) : Prop where
  capabilities : ∀ entry ∈ v.capabilities, v.isGlobal entry.1 = false
  statePrimitive : v.isGlobal v.statePrimitive = false

/-- The usual vocabulary names nothing that the runtime provides. -/
theorem sparesGlobals_usual : ({} : Vocabulary).SparesGlobals where
  capabilities := by decide +kernel
  statePrimitive := by decide

theorem SparesGlobals.isGlobal_of_moduleOf? (spares : v.SparesGlobals) {name module : String}
    (known : v.moduleOf? name = some module) : v.isGlobal name = false := by
  obtain ⟨before, behind, parts, -⟩ := List.lookup_eq_some_iff.mp known
  exact spares.capabilities (name, module) (parts ▸ List.mem_append_right before List.mem_cons_self)

/-- A setter has more behind the prefix of setters, and its value is called by that. -/
theorem valueOfSetter?_eq_some_iff {setter value : String} : v.valueOfSetter? setter = some value ↔
    ∃ rest, rest ≠ [] ∧ setter.toList = v.setterPrefix.toList ++ rest ∧ value = lowerFirst (String.ofList rest) := by
  unfold valueOfSetter?
  constructor
  · intro found
    split at found
    · cases found
    · cases found
    · next rest more parts =>
      have whole := List.isPrefixOf?_eq_some_iff_append_eq.mp parts
      exact ⟨rest, fun none => more (by rw [none]), whole.symm, (Option.some.inj found).symm⟩
  · rintro ⟨rest, more, whole, rfl⟩
    have parts : v.setterPrefix.toList.isPrefixOf? setter.toList = some rest :=
      List.isPrefixOf?_eq_some_iff_append_eq.mpr whole.symm
    rw [parts]
    cases rest with
    | nil => exact absurd rfl more
    | cons c cs => rfl

/-- The runtime provides no name that is imported. -/
theorem SparesGlobals.isGlobal_of_import (spares : v.SparesGlobals) {diagnostics : List Diagnostic}
    {r : ImportRequest} (called : CallsForImport v diagnostics r) : v.isGlobal r.name = false := by
  cases called with
  | @capability name module undeclared remedy =>
      have fits := v.fits_remedy name
      rw [remedy] at fits
      cases fits with
      | capability known => exact spares.isGlobal_of_moduleOf? known
  | @icon name undeclared remedy =>
      have fits := v.fits_remedy name
      rw [remedy] at fits
      cases fits with
      | icon unknown plain own upper => exact own
  | state undeclared remedy => exact spares.statePrimitive

/-- The runtime provides no name that gets a variable of its own. -/
theorem isGlobal_of_placeholder {name : String} (remedy : v.remedy name = .placeholder) : v.isGlobal name = false := by
  have fits := v.fits_remedy name
  rw [remedy] at fits
  cases fits with
  | placeholder unknown plain own lower => exact own

end Vocabulary

section Planned

variable {v : Vocabulary} {diagnostics : List Diagnostic}

/-- A name that is listed in the table of imports is called for. -/
theorem callsForImport_of_mem_importTable {module name : String} {onlyIfImported : Bool} {names : NameSet}
    (here : ((module, onlyIfImported), names) ∈ importTable v diagnostics) (listed : name ∈ names) :
    CallsForImport v diagnostics ⟨module, onlyIfImported, name⟩ := by
  rw [← mem_importRequests]
  have lists : ImportTable.Lists (importTable v diagnostics) ⟨module, onlyIfImported, name⟩ := ⟨names, here, listed⟩
  exact ((ImportTable.lists_foldl_request _ .nil).mp lists).resolve_left fun ⟨_, absent, _⟩ => List.not_mem_nil absent

/-- A fix that introduces a name of the runtime declares a setter, for a name that is reported and that no module is
known to export: the name has more behind the prefix of setters. -/
theorem globals_come_with_setters (v : Vocabulary) (spares : v.SparesGlobals) (filePath : String)
    (diagnostics : List Diagnostic) :
    ∀ fix ∈ (planFile v filePath diagnostics).fixes.map (·.fix), ∀ name ∈ fix.introduced, v.isGlobal name = true →
      ∃ setter rest, fix = .pairedDeclaration (lowerFirst (String.ofList rest)) setter ∧
        IsUndeclared diagnostics setter ∧ v.moduleOf? setter = none ∧
        rest ≠ [] ∧ setter.toList = v.setterPrefix.toList ++ rest := by
  intro fix here name introduced provided
  have required := mem_contents_planFile.mp here
  cases fix with
  | rename position old => cases introduced
  | importMerge module names onlyIfImported =>
      have called := callsForImport_of_mem_importTable (importMerge_mem_requiredFixes.mp required) introduced
      rw [spares.isGlobal_of_import called] at provided
      cases provided
  | singleDeclaration single =>
      obtain rfl := List.mem_singleton.mp introduced
      obtain ⟨-, needs⟩ := singleDeclaration_mem_requiredFixes.mp required
      have remedy := (Bool.and_eq_true_iff.mp needs).1
      rw [Vocabulary.isGlobal_of_placeholder (beq_iff_eq.mp remedy)] at provided
      cases provided
  | pairedDeclaration value setter =>
      obtain ⟨undeclared, remedy⟩ := mem_declaredPairs.mp (pairedDeclaration_mem_requiredFixes.mp required)
      have fits := v.fits_remedy setter
      rw [remedy] at fits
      cases fits with
      | pair unknown found =>
          obtain ⟨rest, more, whole, rfl⟩ := Vocabulary.valueOfSetter?_eq_some_iff.mp found
          exact ⟨setter, rest, rfl, undeclared, unknown, more, whole⟩

end Planned

/-- A timer of the runtime is used, and a setter whose value has the name of a global. -/
def timerReport : List Diagnostic :=
  [⟨"src/App.jsx", .undeclaredReference, "setTimeout", 1, 1, .mustFix, ""⟩,
    ⟨"src/App.jsx", .undeclaredReference, "setWindow", 2, 1, .mustFix, ""⟩]

theorem isGlobal_of_timerReport :
    ({} : Vocabulary).isGlobal "setTimeout" = true ∧ ({} : Vocabulary).isGlobal "window" = true := by
  decide

theorem pairs_of_timerReport :
    .pairedDeclaration "timeout" "setTimeout" ∈ (planFile {} "src/App.jsx" timerReport).fixes.map (·.fix) ∧
      .pairedDeclaration "window" "setWindow" ∈ (planFile {} "src/App.jsx" timerReport).fixes.map (·.fix) := by
  have remedies : ({} : Vocabulary).remedy "setTimeout" = .pair "timeout" "setTimeout" ∧
      ({} : Vocabulary).remedy "setWindow" = .pair "window" "setWindow" := by decide +kernel
  simp only [mem_contents_planFile, pairedDeclaration_mem_requiredFixes, mem_declaredPairs]
  exact ⟨⟨⟨_, List.mem_cons_self, rfl, rfl⟩, remedies.1⟩,
    ⟨_, List.mem_cons_of_mem _ List.mem_cons_self, rfl, rfl⟩, remedies.2⟩

/-- The fix that introduces the timer of the runtime declares it as a setter. -/
theorem timer_comes_as_setter : ({} : Vocabulary).SparesGlobals ∧
    .pairedDeclaration "timeout" "setTimeout" ∈ (planFile {} "src/App.jsx" timerReport).fixes.map (·.fix) ∧
    ({} : Vocabulary).isGlobal "setTimeout" = true ∧
    ∃ setter rest, Fix.pairedDeclaration "timeout" "setTimeout" =
        .pairedDeclaration (lowerFirst (String.ofList rest)) setter ∧
      IsUndeclared timerReport setter ∧ ({} : Vocabulary).moduleOf? setter = none ∧
      rest ≠ [] ∧ setter.toList = ({} : Vocabulary).setterPrefix.toList ++ rest :=
  ⟨Vocabulary.sparesGlobals_usual, pairs_of_timerReport.1, isGlobal_of_timerReport.1,
    globals_come_with_setters {} Vocabulary.sparesGlobals_usual "src/App.jsx" timerReport _ pairs_of_timerReport.1
      "setTimeout" (List.mem_cons_of_mem _ List.mem_cons_self) isGlobal_of_timerReport.1⟩

/-- Names of the runtime do not all stay out of a plan: some come as setters, and some as values. -/
theorem pairs_declare_globals :
    (¬∀ (v : Vocabulary) (filePath : String) (diagnostics : List Diagnostic), v.SparesGlobals →
      ∀ fix ∈ (planFile v filePath diagnostics).fixes.map (·.fix), ∀ name ∈ fix.introduced,
        v.isGlobal name = false) ∧
    ∃ value setter, .pairedDeclaration value setter ∈ (planFile {} "src/App.jsx" timerReport).fixes.map (·.fix) ∧
      ({} : Vocabulary).isGlobal value = true := by
  refine ⟨fun spared => ?_, "window", "setWindow", pairs_of_timerReport.2, isGlobal_of_timerReport.2⟩
  have own := spared {} "src/App.jsx" timerReport Vocabulary.sparesGlobals_usual _ pairs_of_timerReport.1
    "setTimeout" (List.mem_cons_of_mem _ List.mem_cons_self)
  rw [isGlobal_of_timerReport.1] at own
  cases own

end BindingRepair
