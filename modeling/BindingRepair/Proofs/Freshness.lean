/-
# Names stay fresh

A fix takes a name only where it is free: a declaration where the name cannot be seen, a rename where it
is bound neither around nor below. Later fixes take their names in the same way, and none of them renames
what an earlier one has written, so at the end of a run every name that was written still has its one
binding, and no other scope near by binds it.
-/

import BindingRepair.Proofs.Entries
import BindingRepair.Proofs.Fixes
import BindingRepair.Proofs.Plans

namespace BindingRepair

open Text Script Script.Tree

/-! ### Stages of a run -/

variable {t : Tree} {o : RepairOptions}

/-- A tree that fixes of passes up to `pass` have made of the tree `t`. Bindings of the text have their
names, or names with the mark. -/
structure Stage (t : Tree) (mark : String) (pass : Nat) (u : Tree) : Prop where
  wellScoped : u.IsWellScoped
  indexed : u.IsIndexed
  shape : t.scopes.SameShape u.scopes
  places : t.KeepsPlaces u
  bindings : ∀ id s name, id.index < t.size → Binds u.nodes id s name →
    Binds t.nodes id s name ∨ mark.toList <+: name.toList
  component : pass ≤ Pass.declarations.number → u.componentScope? = t.componentScope?

/-- The scopes in which no other binding may have the name that a fix has written, besides the scope of
its binding. -/
def Fix.Near (t : Tree) (fix : Fix) (s r : ScopeId) : Prop :=
  match fix with
  | .importMerge .. => False
  | .pairedDeclaration .. | .singleDeclaration .. => r ∈ t.scopes.chain s
  | .rename .. => r ∈ t.scopes.chain s ∨ s ∈ t.scopes.chain r

/-- The identifier that a fix has given a name, and its scope: of an import the module, of a declaration
the body of the component, of a rename the scope of a binding that had the old name. -/
def Fix.Governs (t : Tree) (o : RepairOptions) (fix : Fix) (s : ScopeId) (name : String) (id : NodeId) :
    Prop :=
  match fix with
  | .importMerge .. => s = moduleScope
  | .pairedDeclaration .. | .singleDeclaration .. =>
    t.componentScope? = some s ∧ isTaken o.globals name = false
  | .rename position old => s = t.scopeOf id ∧ t.offset? position = some (t.spanOf id).start ∧
    Binds t.nodes id s old ∧ isTaken o.globals name = false

/-- The name that a fix has written has one binding, and none near it. -/
def Fix.Holds (t : Tree) (o : RepairOptions) (fix : Fix) (name : String) (u : Tree) : Prop :=
  ∃ s id, fix.Governs t o s name id ∧ Sole u o.reservedPrefix (fix.Near t s) s name id

/-! ### Free names -/

section Free

variable {u : Tree} {s : ScopeId} {use : NameUse} {globals : NameSet} {name : String}

theorem isTaken_of_isFree (free : u.isFree s use globals name = true) : isTaken globals name = false := by
  unfold isFree at free
  simp only [Bool.and_eq_true, Bool.not_eq_true'] at free
  exact free.1.1

/-- A name that a binding may be given is bound nowhere around its scope, and nowhere inside it. -/
theorem listed_eq_nil_of_isFree (wellScoped : u.IsWellScoped) (indexed : u.IsIndexed)
    (free : u.isFree s .rename globals name = true) {r : ScopeId}
    (near : r ∈ u.scopes.chain s ∨ s ∈ u.scopes.chain r) : u.listed r name = [] := by
  rcases near with around | inside
  · exact indexed.listed_eq_nil (unseen_of_isFree free) around
  · unfold isFree at free
    simp only [Bool.and_eq_true, Bool.not_eq_true'] at free
    exact indexed.listed_eq_nil_of_not_binds
      (ScopeForest.not_binds_of_not_bindsBelow wellScoped.forest free.2.1 inside)

/-- A fresh name begins with the name that was wanted. -/
theorem prefix_of_freshName? {attempts : Nat} {fresh : String}
    (found : u.freshName? s use globals attempts name = some fresh) : name.toList <+: fresh.toList := by
  obtain ⟨n, -, rfl, -, -⟩ := freshName?_eq_some_iff.mp found
  exact prefix_form name n

/-- So it bears the mark if the wanted name does. -/
theorem marked_of_freshName? {attempts : Nat} {mark fresh : String}
    (found : u.freshName? s use globals attempts (mark ++ name) = some fresh) : mark.toList <+: fresh.toList := by
  have wanted := prefix_of_freshName? found
  rw [String.toList_append] at wanted
  exact (List.prefix_append ..).trans wanted

end Free

/-! ### Fixes that add names -/

/-- Names are declared in a scope that did not list them, each for a new node. -/
structure Adds (u v : Tree) (scope : ScopeId) (names : List String) : Prop where
  declares : Declares u v scope names
  indexed : v.IsIndexed
  places : u.KeepsPlaces v
  enters : Enters u v scope names
  unlisted : ∀ name ∈ names, u.listed scope name = []

/-- A name that the module lists once is not among those that are added, so it goes on being listed once. -/
theorem Adds.listed_eq {u v : Tree} {scope s : ScopeId} {names : List String} (adds : Adds u v scope names) {name : String}
    {k : NodeId} (once : u.listed s name = [k]) : v.listed s name = [k] := by
  rw [adds.enters.others s name ?_, once]
  rintro ⟨rfl, here⟩
  rw [adds.unlisted name here] at once
  cases once

section Adds

variable {p next : Progress} {written : List String} (wellScoped : p.tree.IsWellScoped)
  (indexed : p.tree.IsIndexed)
include wellScoped indexed

theorem adds_mergeImport {module : String} {names : NameSet} {onlyIfImported : Bool} (nodup : names.Nodup)
    (ok : p.mergeImport module names onlyIfImported = .ok (written, next)) :
    Adds p.tree next.tree moduleScope written := by
  have declares := Progress.declares_mergeImport wellScoped ok
  obtain ⟨missing, edited⟩ := Progress.mergeImport_ok ok
  have nonempty := wellScoped.forest.nonempty
  have nodup : written.Nodup := missing ▸ nodup.filter _
  have unlisted (name : String) (here : name ∈ written) : p.tree.listed moduleScope name = [] := by
    rw [missing] at here
    exact indexed.listed_eq_nil_of_not_binds (by simpa using (List.mem_filter.mp here).2)
  rcases edited with ⟨id, -, edited, -⟩ | ⟨-, -, inserted, -⟩
  · have indexed' := indexed.edit wellScoped (.addImportNames id written)
    have places := p.tree.keepsPlaces_edit (.addImportNames id written)
    rw [edit, edited] at indexed' places
    exact ⟨declares, indexed', places, enters_addImportNames indexed nonempty nodup edited, unlisted⟩
  · have indexed' := indexed.edit wellScoped (.insertImport module written)
    have places := p.tree.keepsPlaces_edit (.insertImport module written)
    rw [edit, ← inserted] at indexed' places
    refine ⟨declares, indexed', places, ?_, unlisted⟩
    rw [inserted]
    exact enters_insertImport indexed nonempty module nodup

/-- The names of a declaration are free in the body of the component. -/
structure Declared (o : RepairOptions) (u v : Tree) (scope : ScopeId) (names : List String) : Prop
    extends Adds u v scope names where
  component : u.componentScope? = some scope
  free : ∀ name ∈ names, u.isFree scope .declaration o.globals name = true

theorem declared_declarePair {value setter : String}
    (ok : p.declarePair o value setter = .ok (written, next)) :
    ∃ scope, Declared o p.tree next.tree scope written := by
  obtain ⟨component, scope, id, freshValue, freshSetter, rfl, different, inComponent, inBody, free,
    edited, -⟩ := Progress.declarePair_ok ok
  have unseen (name : String) (here : name ∈ [freshValue, freshSetter]) := unseen_of_isFree (free name here)
  have declares := declares_declareState wellScoped inBody edited (unseen _ (by simp)) (unseen _ (by simp))
    different
  have indexed' := indexed.edit wellScoped
    (.declareState component freshValue freshSetter o.statePrimitive)
  have places := p.tree.keepsPlaces_edit (.declareState component freshValue freshSetter o.statePrimitive)
  rw [edit, edited] at indexed' places
  exact ⟨scope, ⟨declares, indexed', places, enters_declareState wellScoped indexed inBody different edited,
    fun name here => indexed.listed_eq_nil (unseen name here) (ScopeForest.mem_chain_self _ _)⟩,
    inComponent, free⟩

theorem declared_declareSingle {name : String}
    (ok : p.declareSingle o name = .ok (written, next)) :
    ∃ scope, Declared o p.tree next.tree scope written := by
  obtain ⟨component, scope, id, fresh, rfl, inComponent, inBody, free, edited, -⟩ :=
    Progress.declareSingle_ok ok
  have unseen := unseen_of_isFree free
  have indexed' := indexed.edit wellScoped (.declareNull component fresh)
  have places := p.tree.keepsPlaces_edit (.declareNull component fresh)
  rw [edit, edited] at indexed' places
  refine ⟨scope, ⟨declares_declareNull wellScoped inBody edited unseen, indexed', places,
    enters_declareNull wellScoped indexed inBody edited, fun other here => ?_⟩, inComponent,
    fun other here => ?_⟩
  · rw [List.mem_singleton.mp here]
    exact indexed.listed_eq_nil unseen (ScopeForest.mem_chain_self _ _)
  · rwa [List.mem_singleton.mp here]

end Adds

/-! ### One fix -/

section Step

variable {mark : String} {pass : Nat} {u v : Tree}

/-- Names may be added to the tree of any stage. -/
theorem Stage.of_adds (stage : Stage t mark pass u) (nonempty : 0 < t.size) {scope : ScopeId}
    {names : List String} (adds : Adds u v scope names) {later : Nat} (order : pass ≤ later) :
    Stage t mark later v where
  wellScoped := adds.declares.wellScoped
  indexed := adds.indexed
  shape := stage.shape.trans adds.declares.shape
  places := stage.places.trans adds.places
  bindings id s name bounded binds := by
    have bounded' := bounded.trans_le stage.places.size_le
    exact stage.bindings id s name bounded ((adds.declares.grows.binds_iff bounded' s name).mp binds)
  component early := by
    have nonempty' := nonempty.trans_le stage.places.size_le
    rw [adds.declares.grows.componentScope? stage.wellScoped nonempty',
      stage.component (order.trans early)]

/-- What has been written before is still so when names are added where they were not listed. -/
theorem Fix.Holds.adds {fix : Fix} {name : String} (holds : fix.Holds t o name u) (indexed : u.IsIndexed)
    {scope : ScopeId} {names : List String} (adds : Adds u v scope names)
    (governed : ∀ s id, fix.Governs t o s name id → fix.Near t s scope → scope = s) :
    fix.Holds t o name v := by
  obtain ⟨s, id, governs, sole⟩ := holds
  refine ⟨s, id, governs, sole.enters indexed adds.enters adds.places fun close here => ?_⟩
  have same : scope = s := close.elim (governed s id governs) fun same => same
  have none := adds.unlisted name here
  rw [same, sole.once] at none
  cases none

/-- A binding of the text, whose name goes without the mark, gets one with the mark that nothing near by binds. -/
structure GetsMarked (t u v : Tree) (mark : String) (id : NodeId) (i : IdentifierNode) (fresh : String) : Prop where
  edited : u.rename id fresh = .ok v
  identifier : u.identifier? id = some i
  inText : (u.spanOf id).isEmpty = false
  binds : Binds u.nodes id (u.scopeOf id) i.name
  original : Binds t.nodes id (u.scopeOf id) i.name
  unmarked : ¬mark.toList <+: i.name.toList
  marked : mark.toList <+: fresh.toList
  unlisted : ∀ r, r ∈ t.scopes.chain (t.scopeOf id) ∨ t.scopeOf id ∈ t.scopes.chain r → u.listed r fresh = []

namespace GetsMarked

variable {u v : Tree} {mark fresh : String} {id : NodeId} {i : IdentifierNode}
  (gets : GetsMarked t u v mark id i fresh) (stage : Stage t mark pass u)
include gets stage

theorem nextStage : Stage t mark Pass.renames.number v where
  wellScoped := (renames_rename stage.wellScoped gets.edited).choose_spec.2.wellScoped
  indexed := stage.indexed.rename stage.wellScoped gets.edited
  shape := by
    obtain ⟨before, -, renames⟩ := renames_rename stage.wellScoped gets.edited
    refine stage.shape.trans ?_
    rw [renames.scopes]
    exact (ScopeForest.sameShape_undeclare ..).trans (ScopeForest.sameShape_declare ..)
  places := by
    have places := u.keepsPlaces_edit (.rename id fresh)
    rw [edit, gets.edited] at places
    exact stage.places.trans places
  bindings other s name bounded binds := by
    rcases binds_rename gets.edited binds with ⟨-, rfl⟩ | before
    · exact .inr gets.marked
    · exact stage.bindings other s name bounded before
  component early := absurd early (by decide)

/-- The new name is bound once, and nowhere else near by. -/
theorem sole : Sole v mark (fun r => r ∈ t.scopes.chain (t.scopeOf id) ∨ t.scopeOf id ∈ t.scopes.chain r)
    (t.scopeOf id) fresh id where
  once := by
    rw [listed_rename stage.wellScoped stage.indexed gets.identifier gets.edited,
      if_pos ⟨gets.original.scopeOf, rfl⟩, gets.unlisted _ (.inl (ScopeForest.mem_chain_self _ _))]
    split
    · rfl
    · rfl
  absent r near different := by
    have elsewhere (other : String) : ¬(r = u.scopeOf id ∧ fresh = other) :=
      fun all => different (all.1.trans gets.original.scopeOf.symm)
    rw [listed_rename stage.wellScoped stage.indexed gets.identifier gets.edited, if_neg (elsewhere _),
      if_neg (elsewhere _), gets.unlisted r near]
  settled := .inr gets.marked

/-- Names that have been written before are not touched: they bear the mark, or they are not in the text. -/
theorem holds {earlier : Fix} {name : String} (holds : earlier.Holds t o name u) (same : mark = o.reservedPrefix) :
    earlier.Holds t o name v := by
  obtain ⟨s, other, governs, sole⟩ := holds
  refine ⟨s, other, governs, sole.rename stage.wellScoped stage.indexed gets.identifier gets.edited ?_ ?_⟩
  · rintro rfl
    have same' := (sole.binds stage.indexed).name_eq gets.binds
    rcases sole.settled with empty | bears
    · rw [gets.inText] at empty
      cases empty
    · exact gets.unmarked (same ▸ same' ▸ bears)
  · rintro near rfl
    have none : u.listed s name = [] := by
      refine gets.unlisted s ?_
      rw [gets.original.scopeOf]
      rcases near with near | rfl
      · cases earlier with
        | importMerge => exact near.elim
        | pairedDeclaration => exact .inr near
        | singleDeclaration => exact .inr near
        | rename => exact near.symm
      · exact .inl (ScopeForest.mem_chain_self _ _)
    rw [sole.once] at none
    cases none

end GetsMarked

/-- What a fix comes to in a run: the stage that it leads to, the names that it writes, and those that
were written before. -/
structure Carries (t : Tree) (o : RepairOptions) (pass : Nat) (fix : Fix) (u v : Tree)
    (written : List String) : Prop where
  stage : Stage t o.reservedPrefix fix.pass.number v
  holds : ∀ name ∈ written, fix.Holds t o name v
  keeps : ∀ (earlier : Fix) (name : String), earlier.pass.number ≤ pass →
    earlier.Holds t o name u → earlier.Holds t o name v

variable {p next : Progress} {written : List String} (nonempty : 0 < t.size)
include nonempty

theorem carries_import {module : String} {names : NameSet} {onlyIfImported : Bool} (nodup : names.Nodup)
    (stage : Stage t o.reservedPrefix pass p.tree) (order : pass ≤ Pass.imports.number)
    (ok : p.mergeImport module names onlyIfImported = .ok (written, next)) :
    Carries t o pass (.importMerge module names onlyIfImported) p.tree next.tree written := by
  have adds := adds_mergeImport stage.wellScoped stage.indexed nodup ok
  refine ⟨stage.of_adds nonempty adds order, fun name here => ?_, fun earlier name before holds => ?_⟩
  · obtain ⟨id, sole⟩ := adds.enters.sole adds.places (fun _ => False) here
      (adds.unlisted name here) (fun _ => False.elim) o.reservedPrefix
    exact ⟨moduleScope, id, rfl, sole⟩
  · -- Only imports have been carried out before.
    refine holds.adds stage.indexed adds fun s id governs close => ?_
    have first := before.trans order
    cases earlier with
    | importMerge => exact close.elim
    | pairedDeclaration => exact absurd first (by simp [Fix.pass, Pass.number])
    | singleDeclaration => exact absurd first (by simp [Fix.pass, Pass.number])
    | rename => exact absurd first (by simp [Fix.pass, Pass.number])

theorem carries_declaration {fix : Fix} (declaration : fix.pass = .declarations)
    (stage : Stage t o.reservedPrefix pass p.tree) (order : pass ≤ Pass.declarations.number)
    {scope : ScopeId} (declared : Declared o p.tree next.tree scope written) :
    Carries t o pass fix p.tree next.tree written := by
  have component := (stage.component order).symm.trans declared.component
  refine ⟨stage.of_adds nonempty declared.toAdds (by rwa [declaration]), fun name here => ?_,
    fun earlier name before holds => ?_⟩
  · have free := declared.free name here
    have absent (r : ScopeId) (around : r ∈ t.scopes.chain scope) : p.tree.listed r name = [] := by
      rw [← ScopeForest.chain_of_sameShape stage.shape] at around
      exact stage.indexed.listed_eq_nil (unseen_of_isFree free) around
    obtain ⟨id, sole⟩ := declared.enters.sole declared.places _ here (declared.unlisted name here)
      absent o.reservedPrefix
    refine ⟨scope, id, ?_⟩
    cases fix with
    | pairedDeclaration => exact ⟨⟨component, isTaken_of_isFree free⟩, sole⟩
    | singleDeclaration => exact ⟨⟨component, isTaken_of_isFree free⟩, sole⟩
    | importMerge => cases declaration
    | rename => cases declaration
  · -- Imports and declarations have been carried out before, the latter in the same scope.
    refine holds.adds stage.indexed declared.toAdds fun s id governs close => ?_
    have first := before.trans order
    cases earlier with
    | importMerge => exact close.elim
    | pairedDeclaration => exact Option.some.inj (component.symm.trans governs.1)
    | singleDeclaration => exact Option.some.inj (component.symm.trans governs.1)
    | rename => exact absurd first (by simp [Fix.pass, Pass.number])

omit nonempty in
theorem carries_rename {position : Position} {old : String}
    (unmarked : ¬o.reservedPrefix.toList <+: old.toList) (stage : Stage t o.reservedPrefix pass p.tree)
    (ok : p.rename o position old = .ok (written, next)) :
    Carries t o pass (.rename position old) p.tree next.tree written := by
  obtain ⟨offset, id, fresh, place, found, named, -, -, rfl, freshOk, edited, -⟩ := Progress.rename_ok ok
  obtain ⟨i, identifier, isBinding, start, inText⟩ := of_mem_bindingsAt found
  have free := isFree_of_freshName? freshOk
  have bounded : id.index < t.size := by
    by_contra outside
    rw [stage.places.isEmpty id (Nat.le_of_not_lt outside)] at inText
    cases inText
  obtain rfl : i.name = old := by simpa [name?, identifier] using named
  have binds := binds_of_identifier? identifier isBinding
  -- The old name does not bear the mark, so it is the one in the text.
  have original := (stage.bindings id _ _ bounded binds).resolve_right unmarked
  have unlisted (r : ScopeId)
      (near : r ∈ t.scopes.chain (t.scopeOf id) ∨ t.scopeOf id ∈ t.scopes.chain r) :
      p.tree.listed r fresh = [] := by
    rw [original.scopeOf, ← ScopeForest.chain_of_sameShape stage.shape, ← ScopeForest.chain_of_sameShape stage.shape]
      at near
    exact listed_eq_nil_of_isFree stage.wellScoped stage.indexed free near
  have gets : GetsMarked t p.tree next.tree o.reservedPrefix id i fresh :=
    ⟨edited, identifier, inText, binds, original, unmarked, marked_of_freshName? freshOk, unlisted⟩
  refine ⟨gets.nextStage stage, fun name here => ?_, fun earlier name _ holds => gets.holds stage holds rfl⟩
  obtain rfl := List.mem_singleton.mp here
  refine ⟨t.scopeOf id, id, ⟨rfl, ?_, original.scopeOf ▸ original, isTaken_of_isFree free⟩, gets.sole stage⟩
  rw [← stage.places.text.offset?, place, ← stage.places.spanOf id bounded, start]

/-- Every fix of a proper plan carries on from one stage to the next. -/
theorem carries_apply {plan : FixPlan} (proper : plan.IsProper o.reservedPrefix) {planned : PlannedFix}
    (inPlan : planned ∈ plan.fixes) (stage : Stage t o.reservedPrefix pass p.tree)
    (order : pass ≤ planned.fix.pass.number) (ok : p.apply o planned.fix = .ok (written, next)) :
    Carries t o pass planned.fix p.tree next.tree written := by
  cases fix : planned.fix with
  | importMerge module names onlyIfImported =>
      rw [fix] at ok order
      exact carries_import nonempty (proper.nodup planned inPlan _ _ _ fix) stage order ok
  | pairedDeclaration value setter =>
      rw [fix] at ok order
      obtain ⟨scope, declared⟩ := declared_declarePair stage.wellScoped stage.indexed ok
      exact carries_declaration nonempty rfl stage order declared
  | singleDeclaration name =>
      rw [fix] at ok order
      obtain ⟨scope, declared⟩ := declared_declareSingle stage.wellScoped stage.indexed ok
      exact carries_declaration nonempty rfl stage order declared
  | rename position name =>
      rw [fix] at ok
      exact carries_rename (proper.unmarked planned inPlan _ _ fix) stage ok

end Step

/-! ### Whole runs -/

/-- A run begins with the tree that has been read. -/
theorem Stage.of_parse {source : String} {dialect : Dialect} {t : Tree} (parsed : parse source dialect = .ok t)
    (mark : String) : Stage t mark 0 t where
  wellScoped := isWellScoped_of_parse parsed
  indexed := indexed_of_parse parsed
  shape := .refl _
  places := .refl t
  bindings _ _ _ _ := .inl
  component _ := rfl

/-- Over fixes in the order of their passes, what was written before the first of them and what each of
them writes is still so at the end. -/
theorem holds_applyAll {plan : FixPlan} (proper : plan.IsProper o.reservedPrefix) (nonempty : 0 < t.size)
    {fixes : List PlannedFix} (inPlan : ∀ planned ∈ fixes, planned ∈ plan.fixes)
    (sorted : fixes.Pairwise fun a b => a.fix.pass.number ≤ b.fix.pass.number) {p : Progress} {pass : Nat}
    (stage : Stage t o.reservedPrefix pass p.tree)
    (order : ∀ planned ∈ fixes, pass ≤ planned.fix.pass.number) :
    let result := Progress.applyAll o p fixes
    (∃ last, Stage t o.reservedPrefix last result.2.tree) ∧
      (∀ (earlier : Fix) (name : String), earlier.pass.number ≤ pass →
        earlier.Holds t o name p.tree → earlier.Holds t o name result.2.tree) ∧
      ∀ planned outcome, (planned, outcome) ∈ fixes.zip result.1 → ∀ name ∈ outcome.names,
        planned.fix.Holds t o name result.2.tree := by
  induction fixes generalizing p pass with
  | nil => exact ⟨⟨pass, stage⟩, fun _ _ _ holds => holds, nofun⟩
  | cons first rest ih =>
      obtain ⟨before, sorted⟩ := List.pairwise_cons.mp sorted
      have inRest := fun planned here => inPlan planned (List.mem_cons_of_mem _ here)
      have orderFirst := order first List.mem_cons_self
      unfold Progress.applyAll
      dsimp only
      cases ok : p.apply o first.fix with
      | error reason =>
          obtain ⟨last, kept, each⟩ := ih inRest sorted stage fun planned here =>
            order planned (List.mem_cons_of_mem _ here)
          refine ⟨last, kept, fun planned outcome here name written => ?_⟩
          rcases List.mem_cons.mp here with same | here
          · cases same
            cases written
          · exact each planned outcome here name written
      | ok found =>
          obtain ⟨names, next⟩ := found
          have carries := carries_apply nonempty proper (inPlan first List.mem_cons_self) stage orderFirst ok
          obtain ⟨last, kept, each⟩ := ih inRest sorted carries.stage before
          refine ⟨last, fun earlier name early holds => ?_, fun planned outcome here name written => ?_⟩
          · exact kept earlier name (early.trans orderFirst) (carries.keeps earlier name early holds)
          · rcases List.mem_cons.mp here with same | here
            · cases same
              exact kept _ name (Nat.le_refl _) (carries.holds name written)
            · exact each planned outcome here name written

theorem Progress.length_applyAll (o : RepairOptions) (p : Progress) (fixes : List PlannedFix) :
    (Progress.applyAll o p fixes).1.length = fixes.length := by
  induction fixes generalizing p with
  | nil => rfl
  | cons first rest ih =>
      rw [Progress.applyAll, List.length_cons, List.length_cons, ih]

/-- A name is bound once in a scope and in no scope around it, and is none that must not be declared. -/
structure Script.Tree.BindsFresh (u : Tree) (o : RepairOptions) (s : ScopeId) (name : String) : Prop where
  once : ∃ id, u.bindersOf s name = [id]
  around : ∀ r ∈ u.scopes.chain s, r ≠ s → u.bindersOf r name = []
  notReserved : isReservedWord name = false
  notGlobal : isKnownGlobal name = false
  notProvided : name ∉ o.globals

/-- What becomes of a name that a fix has written. -/
def Fix.NameStaysFresh (fix : Fix) (t u : Tree) (o : RepairOptions) (name : String) : Prop :=
  match fix with
  | .importMerge .. => ∃ id, u.bindersOf moduleScope name = [id]
  | .pairedDeclaration .. | .singleDeclaration .. =>
    ∃ s, t.componentScope? = some s ∧ u.BindsFresh o s name
  | .rename position old => ∃ id, t.offset? position = some (t.spanOf id).start ∧
    id ∈ t.bindersOf (t.scopeOf id) old ∧ u.bindersOf (t.scopeOf id) name = [id] ∧
    u.BindsFresh o (t.scopeOf id) name ∧
    ∀ r, t.scopeOf id ∈ u.scopes.chain r → r ≠ t.scopeOf id → u.bindersOf r name = []

theorem bindersOf_of_listed {u : Tree} (indexed : u.IsIndexed) {s : ScopeId} {name : String} :
    (∀ id, u.listed s name = [id] → u.bindersOf s name = [id]) ∧
      (u.listed s name = [] → u.bindersOf s name = []) := by
  have perm := indexed.perm_bindersOf s name
  refine ⟨fun id once => ?_, fun none => ?_⟩
  · exact List.perm_singleton.mp (once ▸ perm.symm)
  · exact List.perm_nil.mp (none ▸ perm.symm)

theorem Fix.Holds.nameStaysFresh {u : Tree} {fix : Fix} {name : String} {pass : Nat}
    (stage : Stage t o.reservedPrefix pass u) (holds : fix.Holds t o name u) :
    fix.NameStaysFresh t u o name := by
  obtain ⟨s, id, governs, sole⟩ := holds
  have once := (bindersOf_of_listed stage.indexed).1 id sole.once
  have absent (r : ScopeId) (near : fix.Near t s r) (different : r ≠ s) : u.bindersOf r name = [] :=
    (bindersOf_of_listed stage.indexed).2 (sole.absent r near different)
  have bindsFresh (around : ∀ r ∈ t.scopes.chain s, fix.Near t s r)
      (free : isTaken o.globals name = false) : u.BindsFresh o s name := by
    simp only [isTaken, Bool.or_eq_false_iff, List.contains_eq_mem, decide_eq_false_iff_not] at free
    refine ⟨⟨id, once⟩, fun r here => absent r (around r ?_), free.1.1, free.1.2, free.2⟩
    rwa [← ScopeForest.chain_of_sameShape stage.shape]
  cases fix with
  | importMerge module names onlyIfImported =>
      obtain rfl := governs
      exact ⟨id, once⟩
  | pairedDeclaration value setter => exact ⟨s, governs.1, bindsFresh (fun _ here => here) governs.2⟩
  | singleDeclaration name => exact ⟨s, governs.1, bindsFresh (fun _ here => here) governs.2⟩
  | rename position old =>
      obtain ⟨rfl, place, binds, free⟩ := governs
      refine ⟨id, place, mem_bindersOf.mpr binds, once, bindsFresh (fun _ => .inl) free, fun r inside => ?_⟩
      rw [ScopeForest.chain_of_sameShape stage.shape] at inside
      exact absent r (.inr inside)

/-- Every name that a run writes is fresh, and stays so whatever the later fixes of the run do. Each fix
has its outcome. A name that an import has written is bound once in the module. One that a declaration has
written is bound once in the body of the component, one that a rename has written once in the scope of the
binding that it renamed, which had the old name and begins at the place of the fix. No scope around binds
it, after a rename none inside either, and it is none that must not be declared. -/
theorem written_names_stay_fresh {source : String} {dialect : Dialect} {t : Tree}
    (parsed : parse source dialect = .ok t) (o : RepairOptions) {plan : FixPlan}
    (proper : plan.IsProper o.reservedPrefix) :
    let outcomes := (t.carryOut plan o).1
    let u := (t.carryOut plan o).2
    outcomes.length = plan.inPassOrder.length ∧
      ∀ planned outcome, (planned, outcome) ∈ plan.inPassOrder.zip outcomes → ∀ name ∈ outcome.names,
        planned.fix.NameStaysFresh t u o name := by
  obtain ⟨⟨last, stage⟩, -, each⟩ := holds_applyAll (p := { tree := t }) proper (size_pos_of_parse parsed)
    (fun _ => FixPlan.mem_fixes_of_mem_inPassOrder) plan.pairwise_inPassOrder (Stage.of_parse parsed _)
    fun _ _ => Nat.zero_le _
  refine ⟨Progress.length_applyAll .., fun planned outcome here name written => ?_⟩
  exact (each planned outcome here name written).nameStaysFresh stage

/-- Renames a parameter, and declares a pair and imports a name before. -/
def mixedFixes : FixPlan where
  filePath := "A.js"
  fixes := [.mk "1" (.rename ⟨1, 14⟩ "q"), .mk "2" (.pairedDeclaration "v" "setV"),
    .mk "3" (.importMerge "m" ["y"] false)]

theorem isProper_mixedFixes : mixedFixes.IsProper "_" where
  nodup planned here module names onlyIfImported fix := by
    simp only [mixedFixes, List.mem_cons, List.not_mem_nil, or_false] at here
    rcases here with rfl | rfl | rfl
    · cases fix
    · cases fix
    · cases fix
      exact List.nodup_singleton _
  unmarked planned here position name fix := by
    simp only [mixedFixes, List.mem_cons, List.not_mem_nil, or_false] at here
    rcases here with rfl | rfl | rfl
    · cases fix
      decide
    · cases fix
    · cases fix

set_option maxRecDepth 100000 in
/-- A nested function declares the marked name, and the body refers to the first numbered one, so the
parameter gets the second. -/
theorem fresh_names_of_mixed_fixes : ∃ t,
    parse "function A(a, q) \x7b v; _q_1; function f(_q) \x7b\x7d \x7d" .javascript = .ok t ∧
      let u := (t.carryOut mixedFixes {}).2
      (Fix.rename ⟨1, 14⟩ "q").NameStaysFresh t u {} "_q_2" ∧
      (Fix.pairedDeclaration "v" "setV").NameStaysFresh t u {} "v" ∧
      (Fix.importMerge "m" ["y"] false).NameStaysFresh t u {} "y" := by
  obtain ⟨t, parsed, test⟩ := exists_ok_of_test
    (parse "function A(a, q) \x7b v; _q_1; function f(_q) \x7b\x7d \x7d" .javascript)
    (fun t =>
      let written (fix : Fix) (name : String) :=
        (mixedFixes.inPassOrder.zip (t.carryOut mixedFixes {}).1).any
          fun entry => entry.1.fix == fix && entry.2.names.contains name
      written (.rename ⟨1, 14⟩ "q") "_q_2" && written (.pairedDeclaration "v" "setV") "v" &&
        written (.importMerge "m" ["y"] false) "y") (by decide +kernel)
  have fresh (fix : Fix) (name : String)
      (written : (mixedFixes.inPassOrder.zip (t.carryOut mixedFixes {}).1).any
        (fun entry => entry.1.fix == fix && entry.2.names.contains name) = true) :
      fix.NameStaysFresh t (t.carryOut mixedFixes {}).2 {} name := by
    obtain ⟨⟨planned, outcome⟩, here, both⟩ := List.any_eq_true.mp written
    simp only [Bool.and_eq_true, beq_iff_eq, List.contains_iff_mem] at both
    rw [← both.1]
    exact (written_names_stay_fresh parsed {} isProper_mixedFixes).2 planned outcome here name both.2
  simp only [Bool.and_eq_true] at test
  exact ⟨t, parsed, fresh _ _ test.1.1, fresh _ _ test.1.2, fresh _ _ test.2⟩

end BindingRepair
