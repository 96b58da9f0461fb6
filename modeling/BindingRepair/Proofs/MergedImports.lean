/-
# Imports after a run

Names are merged into the first import of the module that accepts names, in source order. Only if there is none
a fix adds an import of its own, which the fixes behind it find in the table of new imports. So a module gets at
most one new import, and as only names that the module does not bind are merged, each is bound once.
-/

import BindingRepair.Proofs.Freshness
import BindingRepair.Proofs.Grammar.WellFormed
import BindingRepair.Proofs.ImportEdits
import BindingRepair.Proofs.Resolution
import BindingRepair.Proofs.SortedTables

namespace BindingRepair

open Text Script Script.Tree

/-- The import that names from a module are merged into: the first that accepts names, in source order, and one that
is not in the source only if there is none. -/
def Script.Tree.MergesInto (t : Tree) (module : String) (id : NodeId) : Prop :=
  t.acceptingImport? module = some id ∨ t.acceptingImport? module = none ∧ t.size ≤ id.index

/-- A name from a module has been added to the import that it belongs to, and is bound nowhere else in the module. -/
def Script.Tree.Imported (t : Tree) (module name : String) (u : Tree) : Prop :=
  ∃ id i k, (id, i) ∈ u.imports ∧ i.source = module ∧ t.MergesInto module id ∧ k ∈ i.added ∧ t.size ≤ k.index ∧
    u.listed moduleScope name = [k]

/-! ### What fixes come to -/

variable {t : Tree} {o : RepairOptions} {p next : Progress} {written : List String}

/-- What fixes have made of a tree that was read. The new imports are those that the table lists, one for each module,
and only for modules without an import that accepts names. -/
structure Merges (t : Tree) (p : Progress) : Prop where
  accounts : t.Accounts p.tree
  wellScoped : p.tree.IsWellScoped
  indexed : p.tree.IsIndexed
  declare : p.tree.ImportsDeclare
  tabled : ∀ id i, (id, i) ∈ p.tree.imports → t.size ≤ id.index → p.newImports.lookup i.source = some id
  known : ∀ module id, p.newImports.lookup module = some id →
    t.size ≤ id.index ∧ (∃ i, (id, i) ∈ p.tree.imports ∧ i.source = module) ∧ t.acceptingImport? module = none

/-- Imports stay, perhaps with more names, and so do names that have been imported once. -/
structure Continues (t : Tree) (p next : Progress) : Prop where
  merges : Merges t next
  imports : ∀ id i, (id, i) ∈ p.tree.imports → ∃ more, (id, i.extend more) ∈ next.tree.imports
  listed : ∀ name k, t.size ≤ k.index → p.tree.listed moduleScope name = [k] → next.tree.listed moduleScope name = [k]

theorem Continues.trans {middle : Progress} (first : Continues t p middle) (second : Continues t middle next) :
    Continues t p next where
  merges := second.merges
  imports id i here := by
    obtain ⟨more, between⟩ := first.imports id i here
    obtain ⟨others, behind⟩ := second.imports id _ between
    exact ⟨more ++ others, ImportNode.extend_extend i more others ▸ behind⟩
  listed name k new once := second.listed name k new (first.listed name k new once)

/-- What has been imported stays so. -/
theorem Continues.imported (continues : Continues t p next) {module name : String}
    (imported : t.Imported module name p.tree) : t.Imported module name next.tree := by
  obtain ⟨id, i, k, here, source, into, added, new, once⟩ := imported
  obtain ⟨more, behind⟩ := continues.imports id i here
  exact ⟨id, i.extend more, k, behind, source, into, List.mem_append_left _ added, new,
    continues.listed name k new once⟩

/-! ### One fix -/

namespace Merges

variable (pristine : t.IsPristine) (merges : Merges t p)
include pristine merges

theorem openImport?_eq (module : String) : p.openImport? module = t.acceptingImport? module :=
  (p.tree.map_find?_imports _).trans (merges.accounts.find?_openImport pristine module)

/-- What a fix merges names into is an import of the module, the first that accepts names if there is one. -/
theorem of_target {module : String} {id : NodeId}
    (target : (p.openImport? module <|> p.newImports.lookup module) = some id) :
    (∃ i, (id, i) ∈ p.tree.imports ∧ i.source = module) ∧ t.MergesInto module id := by
  cases first : p.openImport? module with
  | some found =>
      rw [first] at target
      obtain rfl := Option.some.inj target
      obtain ⟨⟨id, i⟩, here, rfl⟩ := Option.map_eq_some_iff.mp first
      have test := List.find?_some here
      simp only [Bool.and_eq_true, beq_iff_eq] at test
      exact ⟨⟨i, List.mem_of_find?_eq_some here, test.1.1⟩, .inl (merges.openImport?_eq pristine module ▸ first)⟩
  | none =>
      rw [first] at target
      obtain ⟨new, here, none⟩ := merges.known module id target
      exact ⟨here, .inr ⟨none, new⟩⟩

omit pristine in
/-- Where the imports are what they were, it is enough that all else goes on. -/
theorem continues_of_imports (accounts : t.Accounts next.tree) (wellScoped : next.tree.IsWellScoped)
    (indexed : next.tree.IsIndexed) (topLevel : next.tree.topLevel = p.tree.topLevel)
    (imports : next.tree.imports = p.tree.imports) (table : next.newImports = p.newImports)
    (declared : ∀ k, DeclaresIn p.tree.nodes moduleScope k → DeclaresIn next.tree.nodes moduleScope k)
    (listed : ∀ name k, t.size ≤ k.index → p.tree.listed moduleScope name = [k] →
      next.tree.listed moduleScope name = [k]) : Continues t p next where
  merges := {
    accounts
    wellScoped
    indexed
    declare := merges.declare.congr topLevel imports declared
    tabled := fun id i here => by
      rw [table]
      exact merges.tabled id i (imports ▸ here)
    known := fun module id found => by
      rw [imports]
      exact merges.known module id (table ▸ found) }
  imports id i here := ⟨[], by rwa [imports, ImportNode.extend_nil]⟩
  listed := listed

/-- A declaration in a function is no import. -/
theorem continues_declaration {scope : ScopeId} (adds : Adds p.tree next.tree scope written) {place : Nat}
    (inserts : p.tree.Inserts next.tree place) (marks : (Cursor.start t.source).Marks place)
    (topLevel : next.tree.topLevel = p.tree.topLevel) (table : next.newImports = p.newImports) : Continues t p next := by
  refine merges.continues_of_imports
    (merges.accounts.inserts pristine inserts (merges.accounts.places.trans adds.places) marks) adds.declares.wellScoped
    adds.indexed topLevel ?_ table (fun _ => adds.declares.grows.declaresIn) fun name k _ => adds.listed_eq
  refine imports_congr topLevel fun id here => ?_
  obtain ⟨kind, found⟩ := merges.accounts.exists_kind_of_mem_sites pristine (merges.accounts.mem_sites here)
  rw [import?, inserts.keeps id kind found, import?, found]

theorem continues_declarePair {value setter : String} (ok : p.declarePair o value setter = .ok (written, next)) :
    Continues t p next := by
  obtain ⟨scope, declared⟩ := declared_declarePair merges.wellScoped merges.indexed ok
  obtain ⟨component, -, id, freshValue, freshSetter, -, -, -, -, -, edited, table⟩ := Progress.declarePair_ok ok
  obtain ⟨body, found, inserts⟩ := merges.accounts.inserts_state pristine edited
  have topLevel := topLevel_declareState (merges.accounts.root_lt pristine)
    (merges.accounts.placed_of_blockBody pristine found).2 edited
  exact merges.continues_declaration pristine declared.toAdds inserts (merges.accounts.marks_declaration pristine found)
    topLevel table

theorem continues_declareSingle {name : String} (ok : p.declareSingle o name = .ok (written, next)) :
    Continues t p next := by
  obtain ⟨scope, declared⟩ := declared_declareSingle merges.wellScoped merges.indexed ok
  obtain ⟨component, -, id, fresh, -, -, -, -, edited, table⟩ := Progress.declareSingle_ok ok
  obtain ⟨body, found, inserts⟩ := merges.accounts.inserts_null pristine edited
  have topLevel := topLevel_declareNull (merges.accounts.root_lt pristine)
    (merges.accounts.placed_of_blockBody pristine found).2 edited
  exact merges.continues_declaration pristine declared.toAdds inserts (merges.accounts.marks_declaration pristine found)
    topLevel table

/-- A rename gives away no name that has been imported: it renames a binding in the source, and to a name that its
scope does not bind. -/
theorem continues_rename {position : Position} {old : String} (ok : p.rename o position old = .ok (written, next)) :
    Continues t p next := by
  obtain ⟨offset, id, fresh, -, found, -, -, -, -, freshOk, edited, table⟩ := Progress.rename_ok ok
  obtain ⟨i, isIdentifier, -, -, solid⟩ := of_mem_bindingsAt found
  obtain ⟨_, -, renames⟩ := renames_rename merges.wellScoped edited
  obtain ⟨topLevel, imports⟩ := imports_rename edited
  refine merges.continues_of_imports (merges.accounts.rename pristine edited) renames.wellScoped
    (merges.indexed.rename merges.wellScoped edited) topLevel imports table (fun _ => declaresIn_rename edited)
    fun name k new once => ?_
  have apart : k ≠ id := by
    rintro rfl
    rw [merges.accounts.places.isEmpty k new] at solid
    cases solid
  rw [listed_rename merges.wellScoped merges.indexed isIdentifier edited, if_neg ?_, once]
  · split
    · simp [apart]
    · rfl
  · rintro ⟨scope, rfl⟩
    have none := listed_eq_nil_of_isFree merges.wellScoped merges.indexed (isFree_of_freshName? freshOk)
      (.inl (ScopeForest.mem_chain_self _ _))
    rw [← scope, once] at none
    cases none

/-- A new import is entered in the table. -/
theorem continues_withImport {module : String}
    (target : (p.openImport? module <|> p.newImports.lookup module) = none) : Continues t p
      { tree := p.tree.withImport module
        newImports := p.newImports.insert SortedTable.nameBefore module ⟨p.tree.size⟩ } := by
  have known := merges.accounts.root_lt pristine
  have old (id : NodeId) (here : id ∈ p.tree.topLevel) : id.index < p.tree.size :=
    merges.accounts.lt_size_of_mem_topLevel pristine here
  have imports := imports_withImport known old module
  have lookup (other : String) : (p.newImports.insert SortedTable.nameBefore module ⟨p.tree.size⟩).lookup other =
      if other == module then some ⟨p.tree.size⟩ else p.newImports.lookup other :=
    SortedTable.lookup_insert SortedTable.isOrder_nameBefore ..
  have stays {id : NodeId} {i : ImportNode} (here : (id, i) ∈ p.tree.imports) :
      (id, i) ∈ (p.tree.withImport module).imports := imports ▸ List.mem_append_left _ here
  obtain ⟨closed, unlisted⟩ : p.openImport? module = none ∧ p.newImports.lookup module = none := by
    cases first : p.openImport? module with
    | some id =>
        rw [first] at target
        cases target
    | none =>
        rw [first] at target
        exact ⟨rfl, target⟩
  exact {
    merges := {
      accounts := merges.accounts.withImport pristine module
      wellScoped := merges.wellScoped.addNode root p.tree.importPlace.1 merges.wellScoped.moduleScope_lt rfl rfl
      indexed := merges.indexed.addNode _ root moduleScope p.tree.importPlace.1 rfl
      declare := merges.declare.withImport known old module
      tabled := fun id i here new => by
        rw [lookup]
        rw [imports] at here
        rcases List.mem_append.mp here with before | last
        · have found := merges.tabled id i before new
          rw [if_neg, found]
          rintro same
          rw [beq_iff_eq.mp same, unlisted] at found
          cases found
        · obtain ⟨rfl, rfl⟩ := Prod.mk.inj (List.mem_singleton.mp last)
          exact if_pos (beq_self_eq_true module)
      known := fun other id found => by
        rw [lookup] at found
        split at found
        · next same =>
          obtain rfl := beq_iff_eq.mp same
          obtain rfl := Option.some.inj found
          refine ⟨merges.accounts.size_le, ⟨{ source := other }, ?_, rfl⟩, ?_⟩
          · exact imports ▸ List.mem_append_right _ (List.mem_singleton_self _)
          · rw [← merges.openImport?_eq pristine, closed]
        · obtain ⟨new, ⟨i, here, source⟩, none⟩ := merges.known other id found
          exact ⟨new, ⟨i, stays here, source⟩, none⟩ }
    imports := fun id i here => ⟨[], i.extend_nil.symm ▸ stays here⟩
    listed := fun name k _ once => once }

/-- Names that the module does not bind are added to an import of the module. -/
theorem continues_addImportedNames {id : NodeId} {i : ImportNode} (here : (id, i) ∈ p.tree.imports)
    (accepts : id.index < t.size → i.acceptsNames = true) {names : List String} (nodup : names.Nodup)
    (unlisted : ∀ name ∈ names, p.tree.listed moduleScope name = []) (into : t.MergesInto i.source id) :
    Continues t p { p with tree := names.foldl (·.addImportedName id) p.tree } ∧ ∀ name ∈ names,
      t.Imported i.source name (names.foldl (·.addImportedName id) p.tree) := by
  obtain ⟨topLevel, isImport⟩ := mem_imports.mp here
  have extended := merges.accounts.extends_foldl pristine isImport names
  have nonempty := merges.wellScoped.forest.nonempty
  have adds : Adds p.tree (names.foldl (·.addImportedName id) p.tree) moduleScope names :=
    { declares := declares_foldl_addImportedName merges.wellScoped id names
      indexed := merges.indexed.foldl_addImportedName id names nonempty
      places := p.tree.keepsPlaces_foldl_addImportedName id names
      enters := enters_foldl_addImportedName merges.indexed nonempty id nodup
      unlisted }
  have accounts :=
    merges.accounts.foldl_addImportedName pristine isImport (merges.accounts.mem_sites topLevel) accepts names
  generalize names.foldl (·.addImportedName id) p.tree = v at extended adds accounts ⊢
  have imports := extended.imports isImport
  have stays (other : NodeId) (j : ImportNode) (here : (other, j) ∈ p.tree.imports) :
      (other, j.extend (if other = id then v.newSince p.tree.size else [])) ∈ v.imports :=
    imports ▸ List.mem_map.mpr ⟨_, here, rfl⟩
  refine ⟨?_, fun name listed => ?_⟩
  · exact {
      merges := {
        accounts
        wellScoped := adds.declares.wellScoped
        indexed := adds.indexed
        declare := merges.declare.of_extends extended isImport
        tabled := fun other j here new => by
          rw [imports] at here
          obtain ⟨⟨other, j⟩, before, ⟨⟩⟩ := List.mem_map.mp here
          exact merges.tabled other j before new
        known := fun module other found => by
          obtain ⟨new, ⟨j, before, source⟩, none⟩ := merges.known module other found
          exact ⟨new, ⟨_, stays other j before, source⟩, none⟩ }
      imports := fun other j before => ⟨_, stays other j before⟩
      listed := fun name k _ => adds.listed_eq }
  · obtain ⟨k, new, entered⟩ := adds.enters.listed name listed
    rw [unlisted name listed, List.nil_append] at entered
    have binds := adds.indexed.mem_listed.mp (entered ▸ List.mem_singleton_self k)
    have added : k ∈ v.newSince p.tree.size := mem_newSince.mpr ⟨new, binds.lt_size⟩
    refine ⟨id, _, k, stays id i here, rfl, into, ?_, merges.accounts.size_le.trans new, entered⟩
    rw [if_pos rfl]
    exact List.mem_append_right _ added

/-- An import merges its names into one import, and adds one only if that is wanted. -/
theorem continues_mergeImport {module : String} {names : NameSet} {onlyIfImported : Bool} (nodup : names.Nodup)
    (ok : p.mergeImport module names onlyIfImported = .ok (written, next)) :
    Continues t p next ∧ ∀ name ∈ written, t.Imported module name next.tree := by
  obtain ⟨missing, cases⟩ := Progress.mergeImport_ok ok
  have unlisted (name : String) (here : name ∈ written) : p.tree.listed moduleScope name = [] := by
    rw [missing] at here
    exact merges.indexed.listed_eq_nil_of_not_binds (by simpa using (List.mem_filter.mp here).2)
  have nodup : written.Nodup := missing ▸ nodup.filter _
  rcases cases with ⟨id, target, edited, table⟩ | ⟨target, -, inserted, table⟩
  · obtain ⟨⟨i, here, rfl⟩, into⟩ := merges.of_target pristine target
    obtain ⟨j, isImport, takes, is⟩ := addImportNames_eq edited
    obtain rfl := Option.some.inj ((mem_imports.mp here).2.symm.trans isImport)
    have accepts (old : id.index < t.size) : i.acceptsNames = true := by
      rw [(merges.accounts.import_of_old pristine isImport old).1] at takes
      exact takes.resolve_left Bool.false_ne_true
    obtain rfl : next = { p with tree := written.foldl (·.addImportedName id) p.tree } := by
      rw [← is, ← table]
    exact merges.continues_addImportedNames pristine here accepts nodup unlisted into
  · -- The new import is entered first, and then the names are added to it.
    have opened := merges.continues_withImport pristine target
    have last : (⟨p.tree.size⟩, { source := module }) ∈ (p.tree.withImport module).imports := by
      rw [imports_withImport (merges.accounts.root_lt pristine) fun id => merges.accounts.lt_size_of_mem_topLevel pristine]
      exact List.mem_append_right _ (List.mem_singleton_self _)
    obtain ⟨new, -, closed⟩ := opened.merges.known module ⟨p.tree.size⟩ (by
      rw [SortedTable.lookup_insert SortedTable.isOrder_nameBefore, if_pos (beq_self_eq_true module)])
    obtain ⟨continues, imported⟩ := opened.merges.continues_addImportedNames pristine last
      (fun old => absurd old (Nat.not_lt.mpr new)) nodup unlisted (.inr ⟨closed, new⟩)
    rw [← insertImport_eq] at continues imported
    obtain rfl : next = { tree := (p.tree.insertImport module written).2
                          newImports := p.newImports.insert SortedTable.nameBefore module ⟨p.tree.size⟩ } := by
      rw [← inserted]
      exact congrArg (Progress.mk next.tree) table
    exact ⟨opened.trans continues, imported⟩

/-- Every fix carries on. -/
theorem continues_apply {fix : Fix} (nodup : ∀ module names onlyIfImported,
    fix = .importMerge module names onlyIfImported → names.Nodup) (ok : p.apply o fix = .ok (written, next)) :
    Continues t p next ∧ ∀ module names onlyIfImported, fix = .importMerge module names onlyIfImported →
      ∀ name ∈ written, t.Imported module name next.tree := by
  cases fix with
  | importMerge module names onlyIfImported =>
      obtain ⟨continues, imported⟩ := merges.continues_mergeImport pristine (nodup _ _ _ rfl) ok
      refine ⟨continues, ?_⟩
      rintro _ _ _ ⟨⟩
      exact imported
  | pairedDeclaration value setter => exact ⟨merges.continues_declarePair pristine ok, nofun⟩
  | singleDeclaration name => exact ⟨merges.continues_declareSingle pristine ok, nofun⟩
  | rename position name => exact ⟨merges.continues_rename pristine ok, nofun⟩

/-- A fix that is only for modules that are imported adds no import. -/
theorem map_fst_imports_of_onlyIfImported {planned : PlannedFix} {module : String} {names : NameSet}
    (isMerge : planned.fix = .importMerge module names true) :
    (Progress.applyAll o p [planned]).2.tree.imports.map (·.1) = p.tree.imports.map (·.1) := by
  rw [Progress.applyAll, isMerge]
  cases ok : p.apply o (.importMerge module names true) with
  | error reason => rfl
  | ok found =>
      obtain ⟨written, next⟩ := found
      obtain ⟨-, ⟨id, -, edited, -⟩ | ⟨-, wanted, -⟩⟩ := Progress.mergeImport_ok ok
      · obtain ⟨i, isImport, -, is⟩ := addImportNames_eq edited
        show next.tree.imports.map (·.1) = p.tree.imports.map (·.1)
        rw [is, (merges.accounts.extends_foldl pristine isImport written).imports isImport, List.map_map]
        rfl
      · cases wanted

end Merges

/-! ### Whole runs -/

/-- Over any fixes, names that have been imported stay so, and each fix imports what it writes. -/
theorem merges_applyAll (pristine : t.IsPristine) {fixes : List PlannedFix} (nodup : ∀ planned ∈ fixes,
    ∀ module names onlyIfImported, planned.fix = .importMerge module names onlyIfImported → names.Nodup)
    {p : Progress} (merges : Merges t p) :
    let result := Progress.applyAll o p fixes
    Merges t result.2 ∧ (∀ module name, t.Imported module name p.tree → t.Imported module name result.2.tree) ∧
      ∀ planned outcome, (planned, outcome) ∈ fixes.zip result.1 → ∀ module names onlyIfImported,
        planned.fix = .importMerge module names onlyIfImported → ∀ name ∈ outcome.names,
          t.Imported module name result.2.tree := by
  induction fixes generalizing p with
  | nil => exact ⟨merges, fun _ _ imported => imported, nofun⟩
  | cons first rest ih =>
      have nodupRest := fun planned here => nodup planned (List.mem_cons_of_mem _ here)
      unfold Progress.applyAll
      dsimp only
      cases ok : p.apply o first.fix with
      | error reason =>
          obtain ⟨last, kept, each⟩ := ih nodupRest merges
          refine ⟨last, kept, fun planned outcome here => ?_⟩
          rcases List.mem_cons.mp here with same | here
          · cases same
            exact fun _ _ _ _ _ written => absurd written List.not_mem_nil
          · exact each planned outcome here
      | ok found =>
          obtain ⟨written, next⟩ := found
          obtain ⟨continues, imported⟩ := merges.continues_apply pristine (nodup first List.mem_cons_self) ok
          obtain ⟨last, kept, each⟩ := ih nodupRest continues.merges
          refine ⟨last, fun module name before => kept module name (continues.imported before), ?_⟩
          intro planned outcome here
          rcases List.mem_cons.mp here with same | here
          · cases same
            intro module names onlyIfImported isMerge name named
            exact kept module name (imported module names onlyIfImported isMerge name named)
          · exact each planned outcome here

theorem merges_of_parse {source : String} {dialect : Dialect} (parsed : parse source dialect = .ok t) :
    Merges t { tree := t } where
  accounts := (isPristine_of_parse parsed).accounts
  wellScoped := isWellScoped_of_parse parsed
  indexed := indexed_of_parse parsed
  declare := importsDeclare_of_parse parsed
  tabled id _ here new :=
    absurd ((isPristine_of_parse parsed).known id (mem_imports.mp here).1) (Nat.not_lt.mpr new)
  known _ _ found := nomatch found

/-- A name from a module has been added to the import that it belongs to. No other identifier that an import binds has
the name, and no other binding of the module. -/
def Script.Tree.ImportedOnce (t u : Tree) (module name : String) : Prop :=
  ∃ id i k, (id, i) ∈ u.imports ∧ i.source = module ∧ t.MergesInto module id ∧ k ∈ i.added ∧ t.size ≤ k.index ∧
    u.importLocals.filter (fun l => u.name? l == some name) = [k] ∧ u.bindersOf moduleScope name = [k]

namespace Merges

variable (merges : Merges t p)
include merges

/-- What the tables tell of an imported name, as a search of all nodes finds it. -/
theorem importedOnce (pristine : t.IsPristine) {module name : String} (imported : t.Imported module name p.tree) :
    t.ImportedOnce p.tree module name := by
  obtain ⟨id, i, k, here, source, into, added, new, once⟩ := imported
  have bound : k ∈ p.tree.importLocals := List.mem_flatMap.mpr ⟨(id, i), here, List.mem_append_right _ added⟩
  exact ⟨id, i, k, here, source, into, added, new,
    merges.accounts.filter_importLocals pristine merges.declare merges.indexed once new bound,
    (bindersOf_of_listed merges.indexed).1 k once⟩

theorem lookup_of_mem_importsSince {module : String} {entry : NodeId × ImportNode}
    (here : entry ∈ p.tree.importsSince t.size module) : p.newImports.lookup module = some entry.1 := by
  obtain ⟨listed, test⟩ := List.mem_filter.mp here
  simp only [Bool.and_eq_true, decide_eq_true_eq, beq_iff_eq] at test
  exact test.2 ▸ merges.tabled entry.1 entry.2 listed test.1

/-- The table has one import for each module, so there is at most one new import of it. -/
theorem length_importsSince_le (module : String) : (p.tree.importsSince t.size module).length ≤ 1 := by
  have different : (p.tree.importsSince t.size module).Pairwise fun a b => a.1 ≠ b.1 := by
    refine List.Pairwise.filter _ (List.pairwise_map.mp ?_)
    exact map_fst_imports p.tree ▸ merges.declare.nodup.filter _
  cases entries : p.tree.importsSince t.size module with
  | nil => exact Nat.zero_le 1
  | cons first rest =>
      cases rest with
      | nil => exact Nat.le_refl 1
      | cons second rest =>
          rw [entries] at different
          have listed : first ∈ p.tree.importsSince t.size module ∧ second ∈ p.tree.importsSince t.size module := by
            simp [entries]
          have same := (merges.lookup_of_mem_importsSince listed.1).symm.trans
            (merges.lookup_of_mem_importsSince listed.2)
          exact absurd (Option.some.inj same) ((List.pairwise_cons.mp different).1 second List.mem_cons_self)

theorem acceptingImport?_eq_none {module : String} (new : p.tree.importsSince t.size module ≠ []) :
    t.acceptingImport? module = none := by
  obtain ⟨entry, here⟩ := List.exists_mem_of_ne_nil _ new
  exact (merges.known module entry.1 (merges.lookup_of_mem_importsSince here)).2.2

/-- An import that accepts no names is as it was read. -/
theorem import?_of_closed (pristine : t.IsPristine) {id : NodeId} {i : ImportNode} (isImport : t.import? id = some i)
    (closed : i.acceptsNames = false) : p.tree.import? id = some i := by
  obtain ⟨-, added, now, none | accepts⟩ := merges.accounts.exists_import_of_old pristine isImport
  · obtain ⟨n, found, kind⟩ := Option.map_eq_some_iff.mp (import?_eq_some_iff.mp isImport)
    rw [now, none, ← (pristine.imports id n i found kind).2]
  · rw [closed] at accepts
    cases accepts

end Merges

/-- The statements of a module that was read stand one behind the other. -/
theorem Script.pairwise_topLevel_of_parse {source : String} {dialect : Dialect}
    (parsed : parse source dialect = .ok t) : t.topLevel.Pairwise fun a b => (t.spanOf a).stop ≤ (t.spanOf b).start := by
  obtain ⟨s, finished, rfl⟩ := finished_of_parse parsed
  exact (finished.isWellFormed dialect).siblings root

/-- Merging never duplicates an import or a name. The statements of the source stand one behind the other, so that
the first import of a module that accepts names is the first in the source. A run adds at most one import for a
module, and only if the source has none that accepts names; a fix that is only for modules that are imported adds
none. Each name that a merge has written has been added to the first import that accepts names or else to the new
one, and is bound there only, among all that imports bind and among all bindings of the module. Imports of types
only, of a namespace or for their side effects are what they were. The names of a fix are a set. -/
theorem merged_imports_never_duplicate {source : String} {dialect : Dialect} {t : Tree}
    (parsed : parse source dialect = .ok t) (o : RepairOptions) {plan : FixPlan}
    (nodup : ∀ planned ∈ plan.fixes, ∀ module names onlyIfImported,
      planned.fix = .importMerge module names onlyIfImported → names.Nodup) :
    let outcomes := (t.carryOut plan o).1
    let u := (t.carryOut plan o).2
    (t.topLevel.Pairwise fun a b => (t.spanOf a).stop ≤ (t.spanOf b).start) ∧
      (∀ module, (u.importsSince t.size module).length ≤ 1 ∧
        (u.importsSince t.size module ≠ [] → t.acceptingImport? module = none)) ∧
      (∀ before planned after module names, plan.inPassOrder = before ++ planned :: after →
        planned.fix = .importMerge module names true →
          (Progress.applyAll o { tree := t } (before ++ [planned])).2.tree.imports.map (·.1) =
            (Progress.applyAll o { tree := t } before).2.tree.imports.map (·.1)) ∧
      outcomes.length = plan.inPassOrder.length ∧
      (∀ planned outcome, (planned, outcome) ∈ plan.inPassOrder.zip outcomes → ∀ module names onlyIfImported,
        planned.fix = .importMerge module names onlyIfImported → ∀ name ∈ outcome.names, t.ImportedOnce u module name) ∧
      ∀ id i, (id, i) ∈ t.imports →
        i.typeOnly = true ∨ i.namespaceName.isSome = true ∨ i.named = none ∧ i.defaultName = none →
          u.import? id = some i := by
  have pristine := isPristine_of_parse parsed
  have nodupInOrder (planned : PlannedFix) (here : planned ∈ plan.inPassOrder) :=
    nodup planned (FixPlan.mem_fixes_of_mem_inPassOrder here)
  obtain ⟨merges, -, each⟩ := merges_applyAll (o := o) pristine nodupInOrder (merges_of_parse parsed)
  refine ⟨pairwise_topLevel_of_parse parsed,
    fun module => ⟨merges.length_importsSince_le module, merges.acceptingImport?_eq_none⟩, ?_,
    Progress.length_applyAll .., ?_, fun id i here closed => ?_⟩
  · intro before planned after module names parts isMerge
    obtain ⟨earlier, -⟩ := merges_applyAll (o := o) pristine
      (fun planned here => nodupInOrder planned (parts ▸ List.mem_append_left _ here)) (merges_of_parse parsed)
    rw [Progress.applyAll_append]
    exact earlier.map_fst_imports_of_onlyIfImported pristine isMerge
  · intro planned outcome here module names onlyIfImported isMerge name named
    exact merges.importedOnce pristine (each planned outcome here module names onlyIfImported isMerge name named)
  · refine merges.import?_of_closed pristine (mem_imports.mp here).2 ?_
    rcases closed with types | space | ⟨named, default⟩
    · simp [ImportNode.acceptsNames, types]
    · simp [ImportNode.acceptsNames, Option.isNone_eq_false_iff.mpr space]
    · simp [ImportNode.acceptsNames, named, default]

/-- Merges names from two modules, twice from one of them, and from a third only if it is imported. -/
def crossingMerges : FixPlan where
  filePath := "A.js"
  fixes := [.mk "1" (.importMerge "m" ["x"] true), .mk "2" (.importMerge "s" ["y"] false),
    .mk "3" (.importMerge "s" ["y", "z"] true), .mk "4" (.importMerge "p" ["w"] true)]

theorem nodup_crossingMerges : ∀ planned ∈ crossingMerges.fixes, ∀ module names onlyIfImported,
    planned.fix = .importMerge module names onlyIfImported → names.Nodup := by
  intro planned here module names onlyIfImported fix
  simp only [crossingMerges, List.mem_cons, List.not_mem_nil, or_false] at here
  rcases here with rfl | rfl | rfl | rfl
  · cases fix
    exact List.nodup_singleton _
  · cases fix
    exact List.nodup_singleton _
  · cases fix
    decide
  · cases fix
    exact List.nodup_singleton _

set_option maxRecDepth 100000 in
/-- The module `m` has two imports that accept names, and the first of them gets the name. The import of `s` is for
its side effects, so one is added, and the later merge finds it and adds what is missing. The import of `p` is of a
namespace, so nothing comes of the last merge. -/
theorem imports_of_crossing_merges : ∃ t,
    parse "import b, \x7b a \x7d from \"m\";\nimport c from \"m\";\nimport * as n from \"p\";\nimport \"s\";\n"
      .javascript = .ok t ∧
      let u := (t.carryOut crossingMerges {}).2
      t.ImportedOnce u "m" "x" ∧ t.ImportedOnce u "s" "y" ∧ t.ImportedOnce u "s" "z" ∧
        (u.importsSince t.size "s").length ≤ 1 := by
  obtain ⟨t, parsed, test⟩ := exists_ok_of_test
    (parse "import b, \x7b a \x7d from \"m\";\nimport c from \"m\";\nimport * as n from \"p\";\nimport \"s\";\n"
      .javascript)
    (fun t =>
      let written (fix : Fix) (name : String) :=
        (crossingMerges.inPassOrder.zip (t.carryOut crossingMerges {}).1).any
          fun entry => entry.1.fix == fix && entry.2.names.contains name
      written (.importMerge "m" ["x"] true) "x" && written (.importMerge "s" ["y"] false) "y" &&
        written (.importMerge "s" ["y", "z"] true) "z") (by decide +kernel)
  obtain ⟨-, single, -, -, each, -⟩ := merged_imports_never_duplicate parsed {} nodup_crossingMerges
  have imported (module : String) (names : NameSet) (onlyIfImported : Bool) (name : String)
      (written : (crossingMerges.inPassOrder.zip (t.carryOut crossingMerges {}).1).any (fun entry =>
        entry.1.fix == .importMerge module names onlyIfImported && entry.2.names.contains name) = true) :
      t.ImportedOnce (t.carryOut crossingMerges {}).2 module name := by
    obtain ⟨⟨planned, outcome⟩, here, both⟩ := List.any_eq_true.mp written
    simp only [Bool.and_eq_true, beq_iff_eq, List.contains_iff_mem] at both
    exact each planned outcome here module names onlyIfImported both.1 name both.2
  simp only [Bool.and_eq_true] at test
  exact ⟨t, parsed, imported _ _ _ _ test.1.1, imported _ _ _ _ test.1.2, imported _ _ _ _ test.2, (single "s").1⟩

end BindingRepair
