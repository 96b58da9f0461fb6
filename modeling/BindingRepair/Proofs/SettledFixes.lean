/-
# Settled fixes

A fix that has written the names that it asks for is settled: on the tree at the end of the run, carrying it
out once more comes to nothing. The names of imports and declarations are bound by then, in the scopes where
the fix looks for them, and no binding at the place of a rename has the old name any more. That holds of the
tree; in the printed text the places of renames are others.
-/

import BindingRepair.Proofs.Accounts
import BindingRepair.Proofs.BindingSearch
import BindingRepair.Proofs.DroppedFixes
import BindingRepair.Proofs.PlanContents
import BindingRepair.Proofs.RenamedPlaces
import BindingRepair.Proofs.Resolution

namespace BindingRepair

open Text Script Script.Tree

/-! ### The component under renames -/

namespace Script.Tree

variable {t u : Tree}

/-- The trees differ in names only, and a name begins with an upper-case letter in one tree if it does in the
other. -/
structure SameCapitals (t u : Tree) : Prop where
  size_eq : u.size = t.size
  childrenOf : ∀ id, u.childrenOf id = t.childrenOf id
  kind? : ∀ id, u.kind? id = t.kind? id ∨
    ∃ i j, t.kind? id = some (.identifier i) ∧ u.kind? id = some (.identifier j)
  capitals : ∀ id, (u.name? id).any startsUpper = (t.name? id).any startsUpper

namespace SameCapitals

variable (same : SameCapitals t u)
include same

theorem isCapitalized (name : Option NodeId) : u.isCapitalized name = t.isCapitalized name := by
  cases name with
  | none => rfl
  | some id => exact same.capitals id

theorem function? (id : NodeId) : u.function? id = t.function? id := by
  rw [Tree.function?, Tree.function?]
  rcases same.kind? id with kind | ⟨i, j, kind, kind'⟩
  · rw [kind]
  · rw [kind, kind']

theorem componentOfDeclarator? (id : NodeId) : u.componentOfDeclarator? id = t.componentOfDeclarator? id := by
  rw [Tree.componentOfDeclarator?, Tree.componentOfDeclarator?]
  rcases same.kind? id with kind | ⟨i, j, kind, kind'⟩
  · simp only [kind, same.function?, same.isCapitalized]
  · rw [kind, kind']

/-- Whether a component begins at a statement is not changed. The induction follows the export declarations. -/
theorem componentOfStatement? (id : NodeId) : u.componentOfStatement? id = t.componentOfStatement? id := by
  rw [Tree.componentOfStatement?, Tree.componentOfStatement?]
  rcases same.kind? id with kind | ⟨i, j, kind, kind'⟩
  · rw [kind]
    split
    · simp only [same.isCapitalized]
    · rw [same.childrenOf, same.size_eq]
      refine findSome?_congr fun c _ => ?_
      split
      · exact componentOfStatement? c
      · rfl
    · rw [same.childrenOf]
      exact findSome?_congr fun c _ => same.componentOfDeclarator? c
    · rfl
  · rw [kind, kind']
termination_by t.size - id.index

theorem componentScope? : u.componentScope? = t.componentScope? := by
  have first : u.firstComponent? = t.firstComponent? := by
    rw [firstComponent?, firstComponent?, topLevel, topLevel, same.childrenOf]
    exact findSome?_congr fun c _ => same.componentOfStatement? c
  rw [Tree.componentScope?, Tree.componentScope?, first]
  cases t.firstComponent? with
  | none => rfl
  | some component => rw [Option.bind_some, Option.bind_some, bodyScope?, bodyScope?, same.function?]

end SameCapitals

/-- A new name may be given to a binding if it is capitalized like the old one. -/
theorem sameCapitals_rename {id : NodeId} {old new : String} (named : t.name? id = some old)
    (like : startsUpper new = startsUpper old) (edited : t.rename id new = .ok u) : SameCapitals t u := by
  obtain ⟨i, identifier, -, rfl⟩ := rename_eq edited
  obtain ⟨n, found, kind⟩ := identifier?_eq_some_iff.mp identifier
  set u : Tree := { t.modifyNode id fun n => { n with kind := .identifier (i.renamed new) } with
    scopes := (t.scopes.undeclare (t.scopeOf id) i.name id).declare (t.scopeOf id) new id }
  have kind? (other : NodeId) := t.kind?_modifyNode id other fun n => { n with kind := .identifier (i.renamed new) }
  have here : u.kind? id = some (.identifier (i.renamed new)) := by
    refine (kind? id).trans ?_
    rw [if_pos rfl, found, Option.map_some]
  have elsewhere {other : NodeId} (different : id ≠ other) : u.kind? other = t.kind? other :=
    (kind? other).trans (if_neg different)
  refine ⟨Array.size_modify, (t.childrenOf_modifyNode id · fun _ => rfl), fun other => ?_, fun other => ?_⟩
  · rcases eq_or_ne id other with rfl | different
    · exact .inr ⟨i, i.renamed new, by rw [Tree.kind?, found, Option.map_some, kind], here⟩
    · exact .inl (elsewhere different)
  · rcases eq_or_ne id other with rfl | different
    · rw [named, name?, Tree.identifier?, here]
      exact like
    · rw [name?, name?, Tree.identifier?, Tree.identifier?, elsewhere different]

end Script.Tree

/-! ### Plans that rename no component -/

/-- No fix of the plan renames a binding whose name begins with an upper-case letter, nor does the mark. -/
structure FixPlan.KeepsCapitals (plan : FixPlan) (mark : String) : Prop where
  mark : startsUpper mark = false
  names : ∀ planned ∈ plan.fixes, ∀ position name, planned.fix = .rename position name →
    startsUpper name = false

/-- How a name begins is told by any text that it begins with. -/
theorem startsUpper_of_begins {mark name : String} (begins : mark.toList <+: name.toList) (nonempty : mark ≠ "") :
    startsUpper name = startsUpper mark := by
  obtain ⟨rest, whole⟩ := begins
  have filled : mark.toList ≠ [] := fun empty => nonempty (String.toList_eq_nil_iff.mp empty)
  rw [startsUpper, startsUpper, ← whole, List.head?_append_of_ne_nil _ filled]

theorem keepsCapitals_planFile {v : Vocabulary} (mark : startsUpper v.reservedPrefix = false) (filePath : String)
    (diagnostics : List Diagnostic) : (planFile v filePath diagnostics).KeepsCapitals v.reservedPrefix where
  mark := mark
  names planned here position name fix := by
    have required := (FixPlan.mem_foldl_push here).resolve_left List.not_mem_nil
    rw [fix, rename_mem_requiredFixes] at required
    obtain ⟨d, unused, -, rfl⟩ := required
    have mustBeUsed := (Bool.and_eq_true_iff.mp (List.mem_filter.mp unused).2).2
    rw [Vocabulary.mayGoUnused, Bool.not_eq_true', Bool.or_eq_false_iff] at mustBeUsed
    exact mustBeUsed.2

namespace Progress

variable {o : RepairOptions} {p next : Progress} {written : List String}

/-- Such a plan declares all its names in one body. -/
theorem componentScope?_applyAll {plan : FixPlan} (proper : plan.IsProper o.reservedPrefix)
    (keeps : plan.KeepsCapitals o.reservedPrefix) {fixes : List PlannedFix}
    (inPlan : ∀ planned ∈ fixes, planned ∈ plan.fixes) (sound : Sound p.tree) :
    (applyAll o p fixes).2.tree.componentScope? = p.tree.componentScope? := by
  have grown {t u : Tree} {scope : ScopeId} {names : List String} (sound : Sound t)
      (declares : Declares t u scope names) : Sound u ∧ u.componentScope? = t.componentScope? :=
    ⟨sound.of_declares declares, declares.grows.componentScope? sound.wellScoped sound.nonempty⟩
  refine (applyAll_induction (fun t u _ => u.componentScope? = t.componentScope?) (fun _ _ => rfl)
    (fun _ _ _ _ _ _ first second => second.trans first) (fun planned here p next written sound ok => ?_) sound).2
  cases fix : planned.fix with
  | importMerge module names onlyIfImported =>
      rw [fix] at ok
      exact grown sound (declares_mergeImport sound.wellScoped ok)
  | pairedDeclaration value setter =>
      rw [fix] at ok
      obtain ⟨scope, -, declares⟩ := declares_declarePair sound.wellScoped ok
      exact grown sound declares
  | singleDeclaration name =>
      rw [fix] at ok
      obtain ⟨scope, -, declares⟩ := declares_declareSingle sound.wellScoped ok
      exact grown sound declares
  | rename position old =>
      rw [fix] at ok
      obtain ⟨offset, id, fresh, -, -, named, -, -, -, freshOk, edited, -⟩ := rename_ok ok
      obtain ⟨before, -, renames⟩ := renames_rename sound.wellScoped edited
      have unmarked := proper.unmarked planned (inPlan planned here) position old fix
      have nonempty : o.reservedPrefix ≠ "" := by
        intro empty
        rw [empty] at unmarked
        exact unmarked List.nil_prefix
      have like : startsUpper fresh = startsUpper old := by
        rw [startsUpper_of_begins (marked_of_freshName? freshOk) nonempty, keeps.mark,
          keeps.names planned (inPlan planned here) position old fix]
      exact ⟨⟨renames.wellScoped, renames.size_eq ▸ sound.nonempty⟩,
        (sameCapitals_rename named like edited).componentScope?⟩

end Progress

/-! ### Fixes that are carried out again -/

/-- Whether a fix has written the names that it asks for. A binding that is renamed may get any name. -/
def Fix.HasWritten (fix : Fix) (names : List String) : Prop :=
  match fix with
  | .importMerge _ wanted _ => names = wanted
  | .pairedDeclaration value setter => names = [value, setter]
  | .singleDeclaration name => names = [name]
  | .rename .. => ∃ name, names = [name]

/-- Why a fix that has written the names that it asks for is dropped when it is carried out again. -/
def Fix.dropReason : Fix → DropReason
  | .importMerge .. => .alreadyImported
  | .pairedDeclaration .. | .singleDeclaration .. => .alreadyDeclared
  | .rename position name => .noBinding name position

namespace Progress

variable {o : RepairOptions} {p : Progress}

/-- The names of an import are bound. -/
theorem mergeImport_of_binds {module : String} {names : NameSet} {onlyIfImported : Bool}
    (bound : ∀ name ∈ names, p.tree.scopes.binds moduleScope name = true) :
    p.mergeImport module names onlyIfImported = .error .alreadyImported := by
  have none : names.filter (fun name => !p.tree.scopes.binds moduleScope name) = [] := by
    rw [List.filter_eq_nil_iff]
    exact fun name here => by simp [bound name here]
  rw [mergeImport, none]
  rfl

/-- The component has a body that names can be declared in. -/
theorem exists_componentBody {scope : ScopeId} (inComponent : p.tree.componentScope? = some scope) :
    ∃ component body, p.componentBody = .ok (component, body) ∧ body.scope = scope := by
  obtain ⟨component, first, inBody⟩ := Option.bind_eq_some_iff.mp inComponent
  obtain ⟨body, found, rfl⟩ := Option.map_eq_some_iff.mp inBody
  refine ⟨component, body, ?_, rfl⟩
  rw [componentBody, first]
  dsimp only
  rw [blockBody, found]
  rfl

theorem declarePair_of_binds {value setter : String} (identifier : isIdentifier value = true) {scope : ScopeId}
    (inComponent : p.tree.componentScope? = some scope) (bound : p.tree.scopes.binds scope value = true) :
    p.declarePair o value setter = .error .alreadyDeclared := by
  obtain ⟨component, body, place, rfl⟩ := exists_componentBody inComponent
  rw [declarePair, identifier, place]
  dsimp only [bind, Except.bind]
  rw [bound]
  rfl

theorem declareSingle_of_binds {name : String} {scope : ScopeId}
    (inComponent : p.tree.componentScope? = some scope) (bound : p.tree.scopes.binds scope name = true) :
    p.declareSingle o name = .error .alreadyDeclared := by
  obtain ⟨component, body, place, rfl⟩ := exists_componentBody inComponent
  rw [declareSingle, place]
  dsimp only [bind, Except.bind]
  rw [bound]
  rfl

/-- No binding that begins at the place has the name. -/
theorem rename_of_no_binding {position : Position} {offset : Nat} {name : String}
    (place : p.tree.offset? position = some offset)
    (other : ∀ id ∈ p.tree.bindingsAt offset, p.tree.name? id ≠ some name) :
    p.rename o position name = .error (.noBinding name position) := by
  have none : (p.tree.bindingsAt offset).find? (fun id => p.tree.name? id == some name) = none :=
    List.find?_eq_none.mpr fun id here => by simpa using other id here
  rw [rename, place]
  dsimp only
  rw [none]
  rfl

/-- The value of a pair that has been declared is an identifier. -/
theorem isIdentifier_value {value setter : String} {written : List String} {next : Progress}
    (ok : p.declarePair o value setter = .ok (written, next)) : isIdentifier value = true := by
  cases identifier : isIdentifier value with
  | true => rfl
  | false =>
      rw [declarePair, identifier] at ok
      cases ok

/-- If all fixes are dropped, nothing is done. -/
theorem applyAll_of_dropped {fixes : List PlannedFix} {reason : Fix → DropReason}
    (dropped : ∀ planned ∈ fixes, p.apply o planned.fix = .error (reason planned.fix)) :
    applyAll o p fixes = (fixes.map fun planned => outcome planned (.error (reason planned.fix)), p) := by
  induction fixes with
  | nil => rfl
  | cons planned rest ih =>
      rw [applyAll, dropped planned List.mem_cons_self]
      dsimp only
      rw [ih fun other here => dropped other (List.mem_cons_of_mem _ here)]
      rfl

end Progress

theorem Script.Tree.Sole.isBound {u : Tree} {mark : String} {near : ScopeId → Prop} {s : ScopeId} {name : String}
    {id : NodeId} (sole : Sole u mark near s name id) (indexed : u.IsIndexed) : u.scopes.binds s name = true := by
  by_contra unbound
  have none := indexed.listed_eq_nil_of_not_binds (Bool.not_eq_true _ ▸ unbound)
  rw [sole.once] at none
  cases none

section Settled

variable {source : String} {dialect : Dialect} {t u : Tree} (parsed : parse source dialect = .ok t) {o : RepairOptions}
  {p : Progress}
include parsed

/-- Where a binding of the text stands that has got a name with the mark, no binding has a name without it. -/
theorem rename_of_holds {edits : List Edit} (history : p.tree = t.editAll edits) (indexed : p.tree.IsIndexed)
    {position : Position} {old name : String} (unmarked : ¬o.reservedPrefix.toList <+: old.toList)
    (holds : (Fix.rename position old).Holds t o name p.tree) :
    p.rename o position old = .error (.noBinding old position) := by
  obtain ⟨s, id, ⟨-, place, original, -⟩, sole⟩ := holds
  have pristine := isPristine_of_parse parsed
  have laidOut := isLaidOut_of_parse parsed
  have descends : t.Descends p.tree := history ▸ pristine.descends_editAll edits
  have shape : t.KeepsShape p.tree :=
    history ▸ .editAll (.of_layout laidOut.layout) (size_pos_of_parse parsed) edits
  -- The binding that was renamed is found at the place, and no other is.
  obtain ⟨n, found, bindsIn⟩ := sole.binds indexed
  obtain ⟨i, kind, binds, -, rfl⟩ := Node.of_bindsIn bindsIn
  have identifier : p.tree.identifier? id = some i := identifier?_eq_some_iff.mpr ⟨n, found, kind⟩
  have here : id ∈ p.tree.bindingsAt (t.spanOf id).start :=
    (mem_bindingsAt_iff descends pristine laidOut shape).mpr
      ⟨original.lt_size, by rw [descends.places.spanOf id original.lt_size], i, identifier, binds⟩
  have marked : o.reservedPrefix.toList <+: i.name.toList := by
    refine sole.settled.resolve_left fun empty => ?_
    rw [(descends.identifier_of_old pristine identifier original.lt_size).1] at empty
    cases empty
  rw [← descends.places.text.offset?] at place
  refine Progress.rename_of_no_binding place fun other listed named => ?_
  have before := not_lt_of_mem_bindingsAt descends pristine laidOut shape here listed
  have behind := not_lt_of_mem_bindingsAt descends pristine laidOut shape listed here
  obtain rfl : id = other := congrArg NodeId.mk (Nat.le_antisymm (Nat.le_of_not_lt behind) (Nat.le_of_not_lt before))
  obtain rfl : i.name = old := by simpa [name?, identifier] using named
  exact unmarked marked

/-- A fix is settled once the names that it asks for hold. -/
theorem apply_of_holds {plan : FixPlan} (proper : plan.IsProper o.reservedPrefix) {planned : PlannedFix}
    (inPlan : planned ∈ plan.fixes) {edits : List Edit} (history : p.tree = t.editAll edits)
    (indexed : p.tree.IsIndexed) (component : p.tree.componentScope? = t.componentScope?)
    (identifier : ∀ value setter, planned.fix = .pairedDeclaration value setter → isIdentifier value = true)
    {names : List String} (written : planned.fix.HasWritten names)
    (holds : ∀ name ∈ names, planned.fix.Holds t o name p.tree) :
    p.apply o planned.fix = .error planned.fix.dropReason := by
  cases fix : planned.fix with
  | importMerge module wanted onlyIfImported =>
      rw [fix] at written holds
      obtain rfl : names = wanted := written
      refine Progress.mergeImport_of_binds fun name here => ?_
      obtain ⟨s, id, rfl, sole⟩ := holds name here
      exact sole.isBound indexed
  | pairedDeclaration value setter =>
      rw [fix] at written holds
      obtain rfl : names = [value, setter] := written
      obtain ⟨s, id, ⟨inComponent, -⟩, sole⟩ := holds value List.mem_cons_self
      exact Progress.declarePair_of_binds (identifier value setter fix) (component.trans inComponent)
        (sole.isBound indexed)
  | singleDeclaration name =>
      rw [fix] at written holds
      obtain rfl : names = [name] := written
      obtain ⟨s, id, ⟨inComponent, -⟩, sole⟩ := holds name List.mem_cons_self
      exact Progress.declareSingle_of_binds (component.trans inComponent) (sole.isBound indexed)
  | rename position old =>
      rw [fix] at written holds
      obtain ⟨name, rfl⟩ := written
      exact rename_of_holds parsed history indexed (proper.unmarked planned inPlan position old fix)
        (holds name List.mem_cons_self)

end Settled

/-- A run settles the fixes that it carries out as they ask. On the tree at its end such a fix is dropped, whichever
declarations of imports are remembered: an import because its names are bound, a declaration because a name is declared
already, a rename because no binding at its place has the old name. So if every fix that was applied has written the
names it asks for, carrying these out again drops all of them and leaves the tree as it is. -/
theorem settled_fixes_are_dropped {source : String} {dialect : Dialect} {t : Tree}
    (parsed : parse source dialect = .ok t) (o : RepairOptions) {plan : FixPlan}
    (proper : plan.IsProper o.reservedPrefix) (keeps : plan.KeepsCapitals o.reservedPrefix) :
    let outcomes := (t.carryOut plan o).1
    let u := (t.carryOut plan o).2
    (∀ planned outcome, (planned, outcome) ∈ plan.inPassOrder.zip outcomes →
      planned.fix.HasWritten outcome.names → ∀ p : Progress, p.tree = u →
        p.apply o planned.fix = .error planned.fix.dropReason) ∧
    ((∀ planned outcome, (planned, outcome) ∈ plan.inPassOrder.zip outcomes → outcome.status = .applied →
        planned.fix.HasWritten outcome.names) →
      u.carryOut (plan.withoutDropped outcomes) o =
        ((plan.withoutDropped outcomes).inPassOrder.map fun planned =>
          Progress.outcome planned (.error planned.fix.dropReason), u)) := by
  intro outcomes u
  have inPlan (planned : PlannedFix) (here : planned ∈ plan.inPassOrder) : planned ∈ plan.fixes :=
    FixPlan.mem_fixes_of_mem_inPassOrder here
  have nonempty := size_pos_of_parse parsed
  have start := Stage.of_parse parsed o.reservedPrefix
  obtain ⟨⟨last, stage⟩, -, each⟩ := holds_applyAll (p := { tree := t }) proper nonempty inPlan
    plan.pairwise_inPassOrder start fun _ _ => Nat.zero_le _
  have component := Progress.componentScope?_applyAll (p := { tree := t }) proper keeps inPlan
    ⟨start.wellScoped, nonempty⟩
  obtain ⟨edits, history⟩ := Progress.exists_edits_of_applyAll o { tree := t } plan.inPassOrder
  have settled (planned : PlannedFix) (outcome : FixOutcome)
      (here : (planned, outcome) ∈ plan.inPassOrder.zip outcomes)
      (written : planned.fix.HasWritten outcome.names) (p : Progress) (tree : p.tree = u) :
      p.apply o planned.fix = .error planned.fix.dropReason := by
    refine apply_of_holds parsed proper (inPlan planned (List.of_mem_zip here).1) (tree.trans history)
      (tree ▸ stage.indexed) (tree ▸ component) (fun value setter fix => ?_) written fun name listed => ?_
    · -- A pair that has written names was declared.
      rw [fix] at written
      obtain ⟨before, rfl⟩ := Progress.exists_before_of_mem_zip here
      cases result : (Progress.applyAll o { tree := t } before).2.apply o planned.fix with
      | error reason =>
          rw [result] at written
          cases written
      | ok found =>
          rw [fix] at result
          exact Progress.isIdentifier_value result
    · rw [tree]
      exact each planned outcome here name listed
  refine ⟨settled, fun asked => ?_⟩
  have length : outcomes.length = plan.turns.length := by
    rw [← List.length_map plan.fixes.get, ← plan.inPassOrder_eq_turns]
    exact Progress.length_applyAll ..
  have dropped (planned : PlannedFix) (here : planned ∈ (plan.withoutDropped outcomes).inPassOrder) :
      ({ tree := u } : Progress).apply o planned.fix = .error planned.fix.dropReason := by
    rw [plan.inPassOrder_withoutDropped_eq length, appliedAmong] at here
    obtain ⟨⟨planned, outcome⟩, listed, rfl⟩ := List.mem_map.mp here
    obtain ⟨inRun, applied⟩ := List.mem_filter.mp listed
    exact settled planned outcome inRun (asked planned outcome inRun (of_decide_eq_true applied)) _ rfl
  exact congrArg (fun run => (run.1, run.2.tree)) (Progress.applyAll_of_dropped dropped)

/-- A plan that follows from diagnostics renames no component, so it settles if the mark that it puts before names is
the one that tells which bindings may go unused. -/
theorem planned_fixes_settle {source : String} {dialect : Dialect} {t : Tree} (parsed : parse source dialect = .ok t)
    {v : Vocabulary} (nonempty : v.reservedPrefix ≠ "") (lower : startsUpper v.reservedPrefix = false)
    (filePath : String) (diagnostics : List Diagnostic) {o : RepairOptions}
    (same : o.reservedPrefix = v.reservedPrefix) :
    let plan := planFile v filePath diagnostics
    let outcomes := (t.carryOut plan o).1
    let u := (t.carryOut plan o).2
    (∀ planned outcome, (planned, outcome) ∈ plan.inPassOrder.zip outcomes → outcome.status = .applied →
        planned.fix.HasWritten outcome.names) →
      (u.carryOut (plan.withoutDropped outcomes) o).2 = u := by
  intro plan outcomes u asked
  have proper : plan.IsProper o.reservedPrefix := same ▸ isProper_planFile nonempty filePath diagnostics
  have keeps : plan.KeepsCapitals o.reservedPrefix := same ▸ keepsCapitals_planFile lower filePath diagnostics
  rw [(settled_fixes_are_dropped parsed o proper keeps).2 asked]

end BindingRepair
