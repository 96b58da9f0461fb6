/-
# References keep their meaning

Over a whole run of a plan, every reference that refers to a scope goes on referring to it, and one that
refers to nothing finds at most what the run has imported or declared for it. Renames change the meaning
of no reference, whatever was carried out before them.
-/

import BindingRepair.Proofs.Fixes
import BindingRepair.Proofs.Grammar.Parsed
import BindingRepair.Proofs.Plans

namespace BindingRepair

open Text Script Script.Tree

/-! ### Outcomes -/

namespace FixOutcome

/-- The fix has imported the name. -/
def imports (outcome : FixOutcome) (name : String) : Bool :=
  outcome.kind == "import_merge" && outcome.status == .applied && outcome.names.contains name

/-- The fix has declared the name in the component. -/
def declares (outcome : FixOutcome) (name : String) : Bool :=
  (outcome.kind == "paired_declaration" || outcome.kind == "single_declaration") &&
    outcome.status == .applied && outcome.names.contains name

end FixOutcome

/-- The scope that a reference is to refer to after a run with the given outcomes: the one that it
referred to before, or else the module if its name has been imported, or else the body of the component
around it if its name has been declared there. -/
def Script.Tree.expectedScope? (t : Tree) (outcomes : List FixOutcome) (reference : NodeId)
    (name : String) : Option ScopeId :=
  match t.resolve? reference with
  | some scope => some scope
  | none =>
    if outcomes.any (·.imports name) then some moduleScope
    else t.componentScope?.filter fun scope =>
      t.scopes.isWithin (t.scopeOf reference) scope && outcomes.any (·.declares name)

namespace Progress

variable {o : RepairOptions} {p : Progress}

/-! ### Runs -/

/-- All names that some fixes have written. -/
def writtenNames (outcomes : List FixOutcome) : List String :=
  outcomes.flatMap (·.names)

theorem applyAll_append (o : RepairOptions) (p : Progress) (first second : List PlannedFix) :
    applyAll o p (first ++ second) =
      ((applyAll o p first).1 ++ (applyAll o (applyAll o p first).2 second).1,
        (applyAll o (applyAll o p first).2 second).2) := by
  induction first generalizing p with
  | nil => rfl
  | cons planned rest ih =>
      simp only [List.cons_append, applyAll, ih]

/-- A tree that has a module and refers only to nodes and scopes that exist. -/
structure Sound (t : Tree) : Prop where
  wellScoped : t.IsWellScoped
  nonempty : 0 < t.size

/-- A relation between the tree before and after, and the names written, that each fix of a list meets
is met by the whole list. -/
theorem applyAll_induction (relation : Tree → Tree → List String → Prop) {fixes : List PlannedFix}
    (refl : ∀ t, Sound t → relation t t [])
    (trans : ∀ t u v names names', Sound t → relation t u names → relation u v names' →
      relation t v (names ++ names'))
    (each : ∀ planned ∈ fixes, ∀ (p next : Progress) written, Sound p.tree →
      p.apply o planned.fix = .ok (written, next) →
      Sound next.tree ∧ relation p.tree next.tree written)
    (sound : Sound p.tree) :
    Sound (applyAll o p fixes).2.tree ∧
      relation p.tree (applyAll o p fixes).2.tree (writtenNames (applyAll o p fixes).1) := by
  induction fixes generalizing p with
  | nil => exact ⟨sound, refl p.tree sound⟩
  | cons planned rest ih =>
      have later {p : Progress} := ih (p := p) fun planned here =>
        each planned (List.mem_cons_of_mem _ here)
      unfold applyAll
      dsimp only
      cases result : p.apply o planned.fix with
      | error reason => exact later sound
      | ok found =>
          obtain ⟨written, next⟩ := found
          obtain ⟨sound', step⟩ := each planned List.mem_cons_self p next written sound result
          obtain ⟨sound'', steps⟩ := later sound'
          exact ⟨sound'', trans _ _ _ _ _ sound step steps⟩

theorem Sound.of_declares {t u : Tree} {scope : ScopeId} {names : List String} (sound : Sound t)
    (declares : Declares t u scope names) : Sound u :=
  ⟨declares.wellScoped, Nat.lt_of_lt_of_le sound.nonempty declares.grows.size_le⟩

/-! ### The passes -/

/-- The imports of a run declare the names that they write in the module. -/
theorem declares_applyAll_imports {fixes : List PlannedFix} (imports : ∀ f ∈ fixes, f.fix.pass = .imports)
    (sound : Sound p.tree) :
    Sound (applyAll o p fixes).2.tree ∧ Declares p.tree (applyAll o p fixes).2.tree moduleScope
      (writtenNames (applyAll o p fixes).1) := by
  refine applyAll_induction (fun t u names => Declares t u moduleScope names)
    (fun t sound => .of_grows (.refl t) sound.wellScoped rfl moduleScope)
    (fun _ _ _ _ _ _ => Declares.trans) (fun planned here p next written sound ok => ?_) sound
  cases fix : planned.fix with
  | importMerge module names onlyIfImported =>
      rw [fix] at ok
      have declares := declares_mergeImport sound.wellScoped ok
      exact ⟨sound.of_declares declares, declares⟩
  | _ =>
      have pass := imports planned here
      rw [fix] at pass
      cases pass

/-- The body of the component, in which a run declares names. -/
def componentOrModule (t : Tree) : ScopeId :=
  t.componentScope?.getD moduleScope

/-- The declarations of a run declare the names that they write in the component; without a component
they write none. -/
theorem declares_applyAll_declarations {fixes : List PlannedFix}
    (declarations : ∀ f ∈ fixes, f.fix.pass = .declarations) (sound : Sound p.tree) :
    Sound (applyAll o p fixes).2.tree ∧
      Declares p.tree (applyAll o p fixes).2.tree (componentOrModule p.tree)
        (writtenNames (applyAll o p fixes).1) ∧
      (p.tree.componentScope? = none → writtenNames (applyAll o p fixes).1 = []) := by
  refine applyAll_induction (fun t u names => Declares t u (componentOrModule t) names ∧
    (t.componentScope? = none → names = []))
    (fun t sound => ⟨.of_grows (.refl t) sound.wellScoped rfl _, fun _ => rfl⟩) ?_ ?_ sound
  · rintro t u v names names' sound ⟨first, firstNone⟩ ⟨second, secondNone⟩
    have same := first.grows.componentScope? sound.wellScoped sound.nonempty
    rw [componentOrModule, same] at second
    exact ⟨first.trans second, fun none => by rw [firstNone none, secondNone (same.trans none)]; rfl⟩
  · intro planned here p next written sound ok
    have inComponent : ∃ scope, p.tree.componentScope? = some scope ∧
        Declares p.tree next.tree scope written := by
      cases fix : planned.fix with
      | pairedDeclaration value setter =>
          rw [fix] at ok
          exact declares_declarePair sound.wellScoped ok
      | singleDeclaration name =>
          rw [fix] at ok
          exact declares_declareSingle sound.wellScoped ok
      | _ =>
          have pass := declarations planned here
          rw [fix] at pass
          cases pass
    obtain ⟨scope, found, declares⟩ := inComponent
    have here : componentOrModule p.tree = scope := by rw [componentOrModule, found]; rfl
    exact ⟨sound.of_declares declares, here ▸ declares, fun none => by rw [none] at found; cases found⟩

theorem KeepsUses.trans {t u v : Tree} (first : KeepsUses t u) (second : KeepsUses u v) :
    KeepsUses t v where
  uses := first.uses.trans second.uses
  wellScoped := second.wellScoped
  size_eq := second.size_eq.trans first.size_eq
  shape := first.shape.trans second.shape
  resolve? r here :=
    (second.resolve? r (first.uses.references ▸ here)).trans (first.resolve? r here)

theorem keepsUses_applyAll_renames {fixes : List PlannedFix}
    (renames : ∀ f ∈ fixes, f.fix.pass = .renames) (sound : Sound p.tree) :
    KeepsUses p.tree (applyAll o p fixes).2.tree := by
  refine (applyAll_induction (fun t u _ => KeepsUses t u)
    (fun t sound => ⟨.refl t, sound.wellScoped, rfl, .refl _, fun _ _ => rfl⟩)
    (fun _ _ _ _ _ _ => KeepsUses.trans) (fun planned here p next written sound ok => ?_) sound).2
  cases fix : planned.fix with
  | rename position name =>
      rw [fix] at ok
      have keeps := keepsUses_rename sound.wellScoped ok
      exact ⟨⟨keeps.wellScoped, keeps.size_eq ▸ sound.nonempty⟩, keeps⟩
  | _ =>
      have pass := renames planned here
      rw [fix] at pass
      cases pass

/-- In whatever order the fixes of a list come, what a reference refers to it goes on referring to. -/
structure KeepsFound (t u : Tree) : Prop where
  uses : SameUses t u
  resolve? : ∀ r ∈ t.references, ∀ scope, t.resolve? r = some scope → u.resolve? r = some scope

theorem KeepsFound.of_declares {t u : Tree} {scope : ScopeId} {names : List String}
    (declares : Declares t u scope names) (wellScoped : t.IsWellScoped) : KeepsFound t u where
  uses := declares.grows.sameUses wellScoped
  resolve? r here found known := by
    obtain ⟨name, named⟩ := wellScoped.exists_name? here
    rw [declares.resolve?_reference wellScoped here named, known, if_neg fun all => nomatch all.2.2]

theorem keepsFound_applyAll (fixes : List PlannedFix) (sound : Sound p.tree) :
    Sound (applyAll o p fixes).2.tree ∧ KeepsFound p.tree (applyAll o p fixes).2.tree := by
  refine applyAll_induction (fun t u _ => KeepsFound t u) (fun t _ => ⟨.refl t, fun _ _ _ => id⟩)
    (fun _ _ _ _ _ _ first second => ⟨first.uses.trans second.uses, fun r here scope known => ?_⟩)
    (fun planned _ p next written sound ok => ?_) sound
  · exact second.resolve? r (first.uses.references ▸ here) scope (first.resolve? r here scope known)
  · cases fix : planned.fix with
    | rename position name =>
        rw [fix] at ok
        have keeps := keepsUses_rename sound.wellScoped ok
        refine ⟨⟨keeps.wellScoped, keeps.size_eq ▸ sound.nonempty⟩, keeps.uses, ?_⟩
        exact fun r here scope known => (keeps.resolve? r here).trans known
    | importMerge module names onlyIfImported =>
        rw [fix] at ok
        have declares := declares_mergeImport sound.wellScoped ok
        exact ⟨sound.of_declares declares, .of_declares declares sound.wellScoped⟩
    | pairedDeclaration value setter =>
        rw [fix] at ok
        obtain ⟨scope, -, declares⟩ := declares_declarePair sound.wellScoped ok
        exact ⟨sound.of_declares declares, .of_declares declares sound.wellScoped⟩
    | singleDeclaration name =>
        rw [fix] at ok
        obtain ⟨scope, -, declares⟩ := declares_declareSingle sound.wellScoped ok
        exact ⟨sound.of_declares declares, .of_declares declares sound.wellScoped⟩

/-! ### What the outcomes tell -/

/-- An outcome tells the kind of its fix, and names only if the fix was applied. -/
theorem mem_applyAll {fixes : List PlannedFix} {outcome : FixOutcome}
    (here : outcome ∈ (applyAll o p fixes).1) :
    (∃ planned ∈ fixes, outcome.kind = planned.fix.label) ∧
      (outcome.names ≠ [] → outcome.status = .applied) := by
  induction fixes generalizing p with
  | nil => cases here
  | cons planned rest ih =>
      unfold applyAll at here
      dsimp only at here
      rcases List.mem_cons.mp here with rfl | later
      · refine ⟨⟨planned, List.mem_cons_self, ?_⟩, ?_⟩
        · cases p.apply o planned.fix <;> rfl
        · cases p.apply o planned.fix with
          | ok found => exact fun _ => rfl
          | error reason => exact fun names => absurd rfl names
      · obtain ⟨⟨planned, inRest, kind⟩, applied⟩ := ih later
        exact ⟨⟨planned, List.mem_cons_of_mem _ inRest, kind⟩, applied⟩

theorem label_of_imports {fix : Fix} (imports : fix.pass = .imports) : fix.label = "import_merge" := by
  cases fix with
  | importMerge module names onlyIfImported => rfl
  | _ => cases imports

theorem label_of_declarations {fix : Fix} (declarations : fix.pass = .declarations) :
    fix.label = "paired_declaration" ∨ fix.label = "single_declaration" := by
  cases fix with
  | pairedDeclaration value setter => exact .inl rfl
  | singleDeclaration name => exact .inr rfl
  | _ => cases declarations

/-- A name is among those written if some fix of the list was applied and wrote it. -/
theorem any_applied_iff {fixes : List PlannedFix} {name : String} {test : FixOutcome → Bool}
    (tests : ∀ outcome ∈ (applyAll o p fixes).1,
      test outcome = (outcome.status == .applied && outcome.names.contains name)) :
    (applyAll o p fixes).1.any test = true ↔ name ∈ writtenNames (applyAll o p fixes).1 := by
  rw [List.any_eq_true, writtenNames, List.mem_flatMap]
  refine exists_congr fun outcome => and_congr_right fun here => ?_
  rw [tests outcome here, Bool.and_eq_true, beq_iff_eq, List.contains_iff_mem]
  refine ⟨And.right, fun written => ⟨?_, written⟩⟩
  exact (mem_applyAll here).2 (List.ne_nil_of_mem written)

theorem any_imports_iff {fixes : List PlannedFix} (imports : ∀ f ∈ fixes, f.fix.pass = .imports)
    (name : String) : (applyAll o p fixes).1.any (·.imports name) = true ↔
      name ∈ writtenNames (applyAll o p fixes).1 := by
  refine any_applied_iff fun outcome here => ?_
  obtain ⟨⟨planned, inFixes, kind⟩, -⟩ := mem_applyAll here
  rw [FixOutcome.imports, kind, label_of_imports (imports planned inFixes), beq_self_eq_true,
    Bool.true_and]

theorem any_declares_iff {fixes : List PlannedFix}
    (declarations : ∀ f ∈ fixes, f.fix.pass = .declarations) (name : String) :
    (applyAll o p fixes).1.any (·.declares name) = true ↔
      name ∈ writtenNames (applyAll o p fixes).1 := by
  refine any_applied_iff fun outcome here => ?_
  obtain ⟨⟨planned, inFixes, kind⟩, -⟩ := mem_applyAll here
  rw [FixOutcome.declares, kind]
  rcases label_of_declarations (declarations planned inFixes) with label | label
  · rw [label]
    rfl
  · rw [label]
    rfl

/-- No fix but an import imports a name. -/
theorem any_imports_eq_false {fixes : List PlannedFix} (others : ∀ f ∈ fixes, f.fix.pass ≠ .imports)
    (name : String) : (applyAll o p fixes).1.any (·.imports name) = false := by
  refine List.any_eq_false.mpr fun outcome here => ?_
  obtain ⟨⟨planned, inFixes, kind⟩, -⟩ := mem_applyAll here
  have pass := others planned inFixes
  rw [FixOutcome.imports, kind]
  cases fix : planned.fix with
  | importMerge module names onlyIfImported => exact absurd (by rw [fix]; rfl) pass
  | _ => simp [Fix.label]

/-- No fix but a declaration declares a name. -/
theorem any_declares_eq_false {fixes : List PlannedFix}
    (others : ∀ f ∈ fixes, f.fix.pass ≠ .declarations) (name : String) :
    (applyAll o p fixes).1.any (·.declares name) = false := by
  refine List.any_eq_false.mpr fun outcome here => ?_
  obtain ⟨⟨planned, inFixes, kind⟩, -⟩ := mem_applyAll here
  have pass := others planned inFixes
  rw [FixOutcome.declares, kind]
  cases fix : planned.fix with
  | pairedDeclaration value setter => exact absurd (by rw [fix]; rfl) pass
  | singleDeclaration name => exact absurd (by rw [fix]; rfl) pass
  | _ => simp [Fix.label]

end Progress

/-! ### Whole runs -/

/-- The module is around every scope. -/
theorem Script.Tree.IsWellScoped.isWithin_module {t : Tree} (wellScoped : t.IsWellScoped) (r : NodeId) :
    t.scopes.isWithin (t.scopeOf r) moduleScope = true := by
  rw [ScopeForest.isWithin, List.contains_iff_mem]
  exact ScopeForest.module_mem_chain wellScoped.forest (wellScoped.scopeOf_lt r)

open Progress in
/-- What a reference refers to if imports declare names in the module, then declarations declare names
in the component, and renames change nothing. -/
theorem resolve?_passes {t u v w : Tree} {imported declared : List String} (sound : Sound t)
    (imports : Declares t u moduleScope imported)
    (declarations : Declares u v (componentOrModule u) declared)
    (inComponent : u.componentScope? = none → declared = []) (renames : KeepsUses v w) {r : NodeId}
    (here : r ∈ t.references) {name : String} (named : t.name? r = some name) :
    w.resolve? r = match t.resolve? r with
      | some scope => some scope
      | none =>
        if name ∈ imported then some moduleScope
        else t.componentScope?.filter fun scope =>
          t.scopes.isWithin (t.scopeOf r) scope && decide (name ∈ declared) := by
  have sameComponent := imports.grows.componentScope? sound.wellScoped sound.nonempty
  have uses := imports.grows.sameUses sound.wellScoped
  have uses' := declarations.grows.sameUses imports.wellScoped
  have hereU : r ∈ u.references := uses.references ▸ here
  have namedU : u.name? r = some name := (uses.name? r here).trans named
  have first := imports.resolve?_reference sound.wellScoped here named
  have second := declarations.resolve?_reference imports.wellScoped hereU namedU
  rw [renames.resolve? r (uses'.references ▸ hereU), second, first,
    ScopeForest.isWithin_of_sameShape imports.shape, uses.scopeOf r here]
  cases known : t.resolve? r with
  | some scope => simp
  | none =>
      by_cases wasImported : name ∈ imported
      · simp [wasImported, sound.wellScoped.isWithin_module r]
      · rw [componentOrModule, sameComponent]
        cases component : t.componentScope? with
        | none => simp [wasImported, inComponent (sameComponent.trans component)]
        | some scope =>
            rw [Option.filter_some]
            by_cases wasDeclared : name ∈ declared
            · simp [wasImported, wasDeclared]
            · simp [wasImported, wasDeclared]

open Progress in
/-- What a reference refers to after a run is told by what it referred to before and the outcomes. -/
theorem resolve?_carryOut {t : Tree} (sound : Sound t) (plan : FixPlan) (o : RepairOptions) :
    SameUses t (t.carryOut plan o).2 ∧ ∀ r ∈ t.references, ∀ name, t.name? r = some name →
      (t.carryOut plan o).2.resolve? r = t.expectedScope? (t.carryOut plan o).1 r name := by
  have inPass (pass : Pass) : ∀ f ∈ plan.fixes.filter (·.fix.pass = pass), f.fix.pass = pass :=
    fun f inFixes => by simpa using (List.mem_filter.mp inFixes).2
  obtain ⟨soundU, imports⟩ :=
    declares_applyAll_imports (o := o) (p := { tree := t }) (inPass .imports) sound
  obtain ⟨soundV, declarations, inComponent⟩ :=
    declares_applyAll_declarations (o := o) (inPass .declarations) soundU
  have renames := keepsUses_applyAll_renames (o := o) (inPass .renames) soundV
  have carried : t.carryOut plan o =
      ((applyAll o { tree := t } plan.inPassOrder).1, (applyAll o { tree := t } plan.inPassOrder).2.tree) :=
    rfl
  rw [plan.inPassOrder_eq, applyAll_append, applyAll_append] at carried
  refine ⟨?_, fun r here name named => ?_⟩
  · rw [carried]
    exact ((imports.grows.sameUses sound.wellScoped).trans
      (declarations.grows.sameUses soundU.wellScoped)).trans renames.uses
  · rw [carried, expectedScope?]
    have otherPass (pass : Pass) {other : Pass} (differ : pass ≠ other) :
        ∀ f ∈ plan.fixes.filter (·.fix.pass = pass), f.fix.pass ≠ other :=
      fun f inFixes => inPass pass f inFixes ▸ differ
    have anyImports := any_imports_iff (o := o) (p := { tree := t }) (inPass .imports) name
    have anyDeclares := any_declares_iff (o := o)
      (p := (applyAll o { tree := t } (plan.fixes.filter (·.fix.pass = .imports))).2)
      (inPass .declarations) name
    simp only [List.any_append, any_imports_eq_false (otherPass .declarations nofun) name,
      any_imports_eq_false (otherPass .renames nofun) name,
      any_declares_eq_false (otherPass .imports nofun) name,
      any_declares_eq_false (otherPass .renames nofun) name, Bool.or_false, Bool.false_or,
      anyImports, Bool.eq_iff_iff.mpr (anyDeclares.trans (decide_eq_true_iff).symm)]
    exact resolve?_passes sound imports declarations inComponent renames here named

/-- No run captures or orphans a reference. After the passes of a plan every reference of the source
refers to what the outcomes lead one to expect; after any fixes in any order a reference that referred
to a scope still refers to it; and a rename, whatever came before it, leaves every reference alone. -/
theorem references_keep_their_scopes {source : String} {dialect : Dialect} {t : Tree}
    (parsed : parse source dialect = .ok t) (o : RepairOptions) :
    (∀ plan : FixPlan, (t.carryOut plan o).2.references = t.references ∧
      ∀ r ∈ t.references, ∃ name, t.name? r = some name ∧
        (t.carryOut plan o).2.name? r = some name ∧
        (t.carryOut plan o).2.scopeOf r = t.scopeOf r ∧
        (t.carryOut plan o).2.resolve? r = t.expectedScope? (t.carryOut plan o).1 r name) ∧
    ∀ fixes : List PlannedFix, let p := (Progress.applyAll o { tree := t } fixes).2
      (∀ r ∈ t.references, ∀ scope, t.resolve? r = some scope → p.tree.resolve? r = some scope) ∧
      ∀ position name written next, p.rename o position name = .ok (written, next) →
        ∀ r ∈ t.references, next.tree.resolve? r = p.tree.resolve? r := by
  have sound : Progress.Sound t := ⟨isWellScoped_of_parse parsed, size_pos_of_parse parsed⟩
  refine ⟨fun plan => ?_, fun fixes => ?_⟩
  · obtain ⟨uses, resolves⟩ := resolve?_carryOut sound plan o
    refine ⟨uses.references, fun r here => ?_⟩
    obtain ⟨name, named⟩ := sound.wellScoped.exists_name? here
    exact ⟨name, named, (uses.name? r here).trans named, uses.scopeOf r here,
      resolves r here name named⟩
  · obtain ⟨sound', kept⟩ :=
      Progress.keepsFound_applyAll (o := o) (p := { tree := t }) fixes sound
    refine ⟨kept.resolve?, fun position name written next renamed r here => ?_⟩
    exact (Progress.keepsUses_rename sound'.wellScoped renamed).resolve? r
      (kept.uses.references ▸ here)

/-- Declares `x`, imports `y` and renames the second parameter of `function A(a, q)`. -/
def threeFixes : FixPlan where
  filePath := "A.js"
  fixes := [.mk "1" (.singleDeclaration "x"), .mk "2" (.importMerge "m" ["y"] false),
    .mk "3" (.rename ⟨1, 14⟩ "q")]

set_option maxRecDepth 100000 in
/-- Of the four names used in the component, one is declared, one is imported, one stays unbound and
one was bound already. -/
theorem references_of_component :
    ∃ t, parse "function A(a, q) { x; y; z; a }" .javascript = .ok t ∧
      t.references.toList.map t.resolve? = [none, none, none, some ⟨1⟩] ∧
      t.references.toList.map (t.carryOut threeFixes {}).2.resolve? =
        [some ⟨1⟩, some ⟨0⟩, none, some ⟨1⟩] := by
  obtain ⟨t, parsed, test⟩ := exists_ok_of_test
    (parse "function A(a, q) { x; y; z; a }" .javascript)
    (fun t => t.references.toList.map t.resolve? == [none, none, none, some ⟨1⟩] &&
      t.references.toList.map (fun r => (t.name? r).bind fun name =>
        t.expectedScope? (t.carryOut threeFixes {}).1 r name) ==
      [some ⟨1⟩, some ⟨0⟩, none, some ⟨1⟩]) (by decide +kernel)
  rw [Bool.and_eq_true, beq_iff_eq, beq_iff_eq] at test
  refine ⟨t, parsed, test.1, test.2 ▸ List.map_congr_left fun r here => ?_⟩
  obtain ⟨name, named, -, -, resolves⟩ :=
    ((references_keep_their_scopes parsed {}).1 threeFixes).2 r (Array.mem_toList_iff.mp here)
  rw [named, Option.bind_some, resolves]

end BindingRepair
