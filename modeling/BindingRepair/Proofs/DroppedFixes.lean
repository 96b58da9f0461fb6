/-
# Dropped fixes

A fix that is dropped leaves no trace. This is shown of fixes that are carried out in place: each change is made to
the progress at once, and a fix that is dropped on the way leaves the progress as it is then. All changes of a fix
come behind the last reason to drop it, so carrying out in place comes to what carrying out comes to.

Hence the fixes that were dropped can be taken out of a plan: the others find the same tree when their turn comes.
-/

import BindingRepair.Proofs.Freshness
import Mathlib.Data.List.FinRange
import Mathlib.Data.List.Nodup

namespace BindingRepair

open Text Script

/-! ### Carrying out in place -/

/-- A part of a fix that is carried out in place. Where it is dropped, the changes that have been made stay. -/
abbrev InPlace (α : Type) := ExceptT DropReason (StateM Progress) α

namespace InPlace

/-- What a part of a fix comes to: a result, or the reason for which the fix is dropped, and the progress that is
left. -/
def result {α : Type} (part : InPlace α) (p : Progress) : Except DropReason α × Progress :=
  part.run.run p

/-- One change of the tree. -/
def change (edit : Tree → Tree) : InPlace Unit :=
  modify fun p => { p with tree := edit p.tree }

/-- Drops the fix because the tree cannot be edited. -/
def refuse {α : Type} (e : EditError) : InPlace α :=
  throw (.refused e)

def addNode (kind : NodeKind) (parent : NodeId) (scope : ScopeId) (offset : Nat) : InPlace NodeId := do
  let t := (← get).tree
  change fun t => { t with nodes := appendNode t.nodes kind (Span.emptyAt offset) scope (some parent) }
  return ⟨t.size⟩

def addBinding (parent : NodeId) (scope : ScopeId) (name : String) (kind : BindingKind) : InPlace NodeId := do
  let t := (← get).tree
  let id ← addNode (.identifier { name, role := .binding { kind }, synthesized := true }) parent scope
    (t.spanOf parent).start
  change fun t => { t with scopes := t.scopes.declare scope name id }
  return id

def addImportedName (importId : NodeId) (name : String) : InPlace Unit := do
  let id ← addBinding importId Tree.moduleScope name .imported
  change (·.modifyNode importId fun n =>
    { n with kind := match n.kind with
      | .importDeclaration i => .importDeclaration { i with added := i.added ++ [id] }
      | kind => kind })

def addImportNames (importId : NodeId) (names : List String) : InPlace Unit := do
  let t := (← get).tree
  match t.import? importId with
  | none => refuse (.notAnImport importId)
  | some i =>
    if !(t.spanOf importId).isEmpty && !i.acceptsNames then refuse (.closedImport i.source)
    else forM names (addImportedName importId)

def insertImport (module : String) (names : List String) : InPlace NodeId := do
  let (offset, lead, trail) := (← get).tree.importPlace
  let id ← addNode (.importDeclaration { source := module }) Tree.root Tree.moduleScope offset
  forM names (addImportedName id)
  change fun t => { t with insertions := t.insertions ++ [{ offset, node := id, lead, trail }] }
  return id

def blockBody (function : NodeId) : InPlace FunctionBody := do
  match ((← get).tree.function? function).bind (·.body) with
  | some body => return body
  | none => refuse (.noBlockBody function)

/-- Makes a new statement a declaration whose text goes to the top of a body. -/
def synthesize (id : NodeId) (declaration : SynthesizedDeclaration) (body : FunctionBody) : InPlace Unit := do
  change (·.modifyNode id fun n => { n with kind := .synthesized declaration })
  change (·.placeDeclaration body id)

def declareState (function : NodeId) (value setter callee : String) : InPlace Unit := do
  let body ← blockBody function
  let id ← addNode .statement function body.scope (body.opening + 1)
  let valueId ← addBinding id body.scope value .const
  let setterId ← addBinding id body.scope setter .const
  synthesize id (.state valueId setterId callee) body

def declareNull (function : NodeId) (name : String) : InPlace Unit := do
  let body ← blockBody function
  let id ← addNode .statement function body.scope (body.opening + 1)
  let nameId ← addBinding id body.scope name .let
  synthesize id (.null nameId) body

def renameBinding (id : NodeId) (name : String) : InPlace Unit := do
  let t := (← get).tree
  match t.identifier? id with
  | none => refuse (.notABinding id)
  | some i =>
    if i.site?.isNone then refuse (.notABinding id)
    else
      let renamedFrom := if i.renamedFrom.isNone && !i.synthesized then some i.name else i.renamedFrom
      change (·.modifyNode id fun n => { n with kind := .identifier { i with name, renamedFrom } })
      change fun u => { u with scopes := u.scopes.undeclare (t.scopeOf id) i.name id }
      change fun u => { u with scopes := u.scopes.declare (t.scopeOf id) name id }

/-! #### Fixes -/

def mergeImport (module : String) (names : NameSet) (onlyIfImported : Bool) : InPlace (List String) := do
  let p ← get
  let missing := names.filter fun name => !p.tree.scopes.binds Tree.moduleScope name
  if missing.isEmpty then throw .alreadyImported
  match p.openImport? module <|> p.newImports.lookup module with
  | some id => addImportNames id missing
  | none =>
    if onlyIfImported then throw (.noImport module)
    let id ← insertImport module missing
    modify fun p => { p with newImports := p.newImports.insert SortedTable.nameBefore module id }
  return missing

/-- The first component and its body. -/
def componentBody : InPlace (NodeId × FunctionBody) := do
  match (← get).tree.firstComponent? with
  | none => throw .noComponent
  | some component => return (component, ← blockBody component)

def freshName (o : RepairOptions) (s : ScopeId) (use : NameUse) (name : String) : InPlace String := do
  match (← get).tree.freshName? s use o.globals o.maxSuffixAttempts name with
  | some fresh => return fresh
  | none => throw (.noFreeName name)

def declarePair (o : RepairOptions) (value setter : String) : InPlace (List String) := do
  if !isIdentifier value then throw (.notAnIdentifier value)
  let (component, body) ← componentBody
  let scopes := (← get).tree.scopes
  if scopes.binds body.scope value || scopes.binds body.scope setter then throw .alreadyDeclared
  let freshValue ← freshName o body.scope .declaration value
  let freshSetter ← freshName o body.scope .declaration setter
  if freshValue = freshSetter then throw (.declaredTwice freshValue)
  declareState component freshValue freshSetter o.statePrimitive
  return [freshValue, freshSetter]

def declareSingle (o : RepairOptions) (name : String) : InPlace (List String) := do
  let (component, body) ← componentBody
  if (← get).tree.scopes.binds body.scope name then throw .alreadyDeclared
  let fresh ← freshName o body.scope .declaration name
  declareNull component fresh
  return [fresh]

def rename (o : RepairOptions) (position : Position) (name : String) : InPlace (List String) := do
  let t := (← get).tree
  let some offset := t.offset? position | throw (.outsideFile position)
  let some id := (t.bindingsAt offset).find? fun id => t.name? id == some name
    | throw (.noBinding name position)
  let some site := (t.identifier? id).bind (·.site?) | throw (.notABinding name position)
  if site.exported then throw (.exported name)
  if t.isReferenced id then throw (.referenced name)
  let fresh ← freshName o (t.scopeOf id) .rename (o.reservedPrefix ++ name)
  renameBinding id fresh
  return [fresh]

/-- Carries out a fix in place. -/
def apply (o : RepairOptions) : Fix → InPlace (List String)
  | .importMerge module names onlyIfImported => mergeImport module names onlyIfImported
  | .pairedDeclaration value setter => declarePair o value setter
  | .singleDeclaration name => declareSingle o name
  | .rename position name => rename o position name

/-! #### Nothing is left of a fix that is dropped -/

/-- What is left of a result: the progress that it led to, or else the one that there was. -/
def settled {α : Type} (p : Progress) : Except DropReason (α × Progress) → Except DropReason α × Progress
  | .ok (a, next) => (.ok a, next)
  | .error reason => (.error reason, p)

variable {p : Progress} {α β : Type}

theorem result_bind (part : InPlace α) (rest : α → InPlace β) :
    (part >>= rest).result p =
      match part.result p with
      | (.ok a, next) => (rest a).result next
      | (.error reason, next) => (.error reason, next) := by
  rcases done : part.result p with ⟨_ | a, next⟩ <;>
    simp only [result, ExceptT.run_bind, StateT.run_bind] at done ⊢ <;> rw [done] <;> rfl

/-- What is read of the progress changes nothing. -/
theorem result_get_bind (rest : Progress → InPlace β) : (get >>= rest).result p = (rest p).result p :=
  rfl

/-- A reason to drop the fix that comes before all changes leaves the progress as it is. -/
theorem settled_guard {c : Prop} [Decidable c] {reason : DropReason} {rest : InPlace α}
    {next : Except DropReason (α × Progress)} (same : rest.result p = settled p next) :
    (if c then throw reason >>= fun _ : PUnit => rest else rest).result p =
      settled p (if c then throw reason >>= fun _ : PUnit => next else next) := by
  split
  · rfl
  · exact same

/-- So does a part that changes nothing. -/
theorem settled_read {part : InPlace β} {value : Except DropReason β} {rest : β → InPlace α}
    {next : β → Except DropReason (α × Progress)} (read : part.result p = (value, p))
    (same : ∀ b, (rest b).result p = settled p (next b)) :
    (part >>= rest).result p = settled p (value >>= next) := by
  rw [result_bind, read]
  cases value with
  | error reason => rfl
  | ok b => exact same b

theorem result_addNode (kind : NodeKind) (parent : NodeId) (scope : ScopeId) (offset : Nat) :
    (addNode kind parent scope offset).result p =
      (.ok (p.tree.addNode kind parent scope offset).1,
        { p with tree := (p.tree.addNode kind parent scope offset).2 }) :=
  rfl

theorem result_addImportedNames (importId : NodeId) (names : List String) :
    (forM names (addImportedName importId)).result p =
      (.ok (), { p with tree := names.foldl (·.addImportedName importId) p.tree }) := by
  induction names generalizing p with
  | nil => rfl
  | cons name names ih =>
      have one : (addImportedName importId name).result p =
          (.ok (), { p with tree := p.tree.addImportedName importId name }) := rfl
      rw [List.forM_cons, result_bind, one]
      exact ih

theorem result_addImportNames (importId : NodeId) (names : List String) :
    (addImportNames importId names).result p =
      settled p ((Progress.edited (p.tree.addImportNames importId names)).map fun tree => ((), { p with tree })) := by
  unfold addImportNames Tree.addImportNames
  rw [result_get_bind]
  dsimp only
  cases p.tree.import? importId with
  | none => rfl
  | some i =>
      dsimp only
      split
      · rfl
      · exact result_addImportedNames importId names

theorem result_insertImport (module : String) (names : List String) :
    (insertImport module names).result p =
      (.ok (p.tree.insertImport module names).1, { p with tree := (p.tree.insertImport module names).2 }) := by
  unfold insertImport
  rw [result_get_bind]
  dsimp only
  rw [result_bind, result_addNode]
  dsimp only
  rw [result_bind, result_addImportedNames]
  rfl

theorem result_mergeImport (module : String) (names : NameSet) (onlyIfImported : Bool) :
    (mergeImport module names onlyIfImported).result p = settled p (p.mergeImport module names onlyIfImported) := by
  unfold mergeImport Progress.mergeImport
  rw [result_get_bind]
  dsimp only
  generalize names.filter (fun name => !p.tree.scopes.binds Tree.moduleScope name) = missing
  refine settled_guard ?_
  cases p.openImport? module <|> p.newImports.lookup module with
  | some id =>
      dsimp only
      rw [result_bind, result_addImportNames]
      cases p.tree.addImportNames id missing <;> rfl
  | none =>
      refine settled_guard ?_
      rw [result_bind, result_insertImport]
      rfl

/-- The body of a function is read off the progress. -/
theorem result_blockBody (function : NodeId) :
    (blockBody function).result p = (Progress.edited (p.tree.blockBody function), p) := by
  unfold blockBody Tree.blockBody
  rw [result_get_bind]
  cases (p.tree.function? function).bind (·.body) <;> rfl

theorem result_componentBody : componentBody.result p = (p.componentBody, p) := by
  unfold componentBody Progress.componentBody
  rw [result_get_bind]
  cases p.tree.firstComponent? with
  | none => rfl
  | some component =>
      dsimp only
      rw [result_bind, result_blockBody]
      cases p.tree.blockBody component <;> rfl

/-- So is a fresh name. -/
theorem result_freshName (o : RepairOptions) (s : ScopeId) (use : NameUse) (name : String) :
    (freshName o s use name).result p = (p.freshName o s use name, p) := by
  unfold freshName Progress.freshName
  rw [result_get_bind]
  cases p.tree.freshName? s use o.globals o.maxSuffixAttempts name <;> rfl

theorem result_declareState (function : NodeId) (value setter callee : String) :
    (declareState function value setter callee).result p =
      settled p ((Progress.edited (p.tree.declareState function value setter callee)).map
        fun (_, tree) => ((), { p with tree })) := by
  unfold declareState Tree.declareState
  rw [result_bind, result_blockBody]
  cases p.tree.blockBody function <;> rfl

theorem result_declareNull (function : NodeId) (name : String) :
    (declareNull function name).result p =
      settled p ((Progress.edited (p.tree.declareNull function name)).map fun (_, tree) => ((), { p with tree })) := by
  unfold declareNull Tree.declareNull
  rw [result_bind, result_blockBody]
  cases p.tree.blockBody function <;> rfl

theorem result_declarePair (o : RepairOptions) (value setter : String) :
    (declarePair o value setter).result p = settled p (p.declarePair o value setter) := by
  unfold declarePair Progress.declarePair
  refine settled_guard (settled_read result_componentBody fun (component, body) => ?_)
  rw [result_get_bind]
  refine settled_guard (settled_read (result_freshName ..) fun freshValue =>
    settled_read (result_freshName ..) fun freshSetter => settled_guard ?_)
  rw [result_bind, result_declareState]
  cases p.tree.declareState component freshValue freshSetter o.statePrimitive <;> rfl

theorem result_declareSingle (o : RepairOptions) (name : String) :
    (declareSingle o name).result p = settled p (p.declareSingle o name) := by
  unfold declareSingle Progress.declareSingle
  refine settled_read result_componentBody fun (component, body) => ?_
  rw [result_get_bind]
  refine settled_guard (settled_read (result_freshName ..) fun fresh => ?_)
  rw [result_bind, result_declareNull]
  cases p.tree.declareNull component fresh <;> rfl

theorem result_renameBinding (id : NodeId) (name : String) :
    (renameBinding id name).result p =
      settled p ((Progress.edited (p.tree.rename id name)).map fun tree => ((), { p with tree })) := by
  unfold renameBinding Tree.rename
  rw [result_get_bind]
  dsimp only
  cases p.tree.identifier? id with
  | none => rfl
  | some i =>
      dsimp only
      split <;> rfl

theorem result_rename (o : RepairOptions) (position : Position) (name : String) :
    (rename o position name).result p = settled p (p.rename o position name) := by
  unfold rename Progress.rename
  rw [result_get_bind]
  dsimp only
  cases p.tree.offset? position with
  | none => rfl
  | some offset =>
      dsimp only
      cases (p.tree.bindingsAt offset).find? fun id => p.tree.name? id == some name with
      | none => rfl
      | some id =>
          dsimp only
          cases (p.tree.identifier? id).bind (·.site?) with
          | none => rfl
          | some site =>
              refine settled_guard (settled_guard (settled_read (result_freshName ..) fun fresh => ?_))
              rw [result_bind, result_renameBinding]
              cases p.tree.rename id fresh <;> rfl

/-- Carrying out a fix in place comes to what carrying it out comes to. If the fix is dropped, the progress is left as
it was. -/
theorem result_apply (o : RepairOptions) (fix : Fix) : (apply o fix).result p = settled p (p.apply o fix) := by
  cases fix with
  | importMerge module names onlyIfImported => exact result_mergeImport module names onlyIfImported
  | pairedDeclaration value setter => exact result_declarePair o value setter
  | singleDeclaration name => exact result_declareSingle o name
  | rename position name => exact result_rename o position name

/-- Carries out fixes in place, one after another. -/
def applyAll (o : RepairOptions) : List PlannedFix → StateM Progress (List FixOutcome)
  | [] => return []
  | planned :: rest => do
    let result ← (apply o planned.fix).run
    let next ← get
    let outcomes ← applyAll o rest
    return Progress.outcome planned (result.map (·, next)) :: outcomes

theorem run_applyAll (o : RepairOptions) (p : Progress) (fixes : List PlannedFix) :
    (applyAll o fixes).run p = Progress.applyAll o p fixes := by
  induction fixes generalizing p with
  | nil => rfl
  | cons planned rest ih =>
      have first := result_apply (p := p) o planned.fix
      unfold result at first
      rw [applyAll, StateT.run_bind, first, Progress.applyAll]
      cases done : p.apply o planned.fix with
      | error reason =>
          dsimp only [settled]
          rw [← ih p]
          rfl
      | ok names =>
          dsimp only [settled]
          rw [← ih names.2]
          rfl

end InPlace

/-! ### Plans without the fixes that were dropped -/

/-- Items in the order of the passes of their fixes. -/
def passByPass {α : Type} (fixOf : α → Fix) (items : List α) : List α :=
  Pass.all.flatMap fun pass => items.filter fun a => (fixOf a).pass = pass

section PassByPass

variable {α β : Type} (fixOf : α → Fix)

theorem passByPass_filter (keep : α → Bool) (items : List α) :
    passByPass fixOf (items.filter keep) = (passByPass fixOf items).filter keep := by
  unfold passByPass
  rw [List.filter_flatMap]
  congr 1
  funext pass
  rw [List.filter_filter, List.filter_filter]
  exact List.filter_congr fun a _ => Bool.and_comm ..

theorem passByPass_map (f : β → α) (items : List β) :
    passByPass fixOf (items.map f) = (passByPass (fixOf ∘ f) items).map f := by
  unfold passByPass
  rw [List.map_flatMap]
  congr 1
  funext pass
  exact List.filter_map ..

/-- No item comes in two passes. -/
theorem nodup_passByPass {items : List α} (nodup : items.Nodup) : (passByPass fixOf items).Nodup := by
  refine List.nodup_flatMap.mpr ⟨fun pass _ => nodup.filter _, ?_⟩
  have apart : Pass.all.Pairwise (· ≠ ·) := by decide
  refine apart.imp fun {pass other} differ => ?_
  rintro a inPass inOther
  refine differ ?_
  rw [← of_decide_eq_true (List.mem_filter.mp inPass).2, ← of_decide_eq_true (List.mem_filter.mp inOther).2]

end PassByPass

namespace FixPlan

variable (plan : FixPlan)

/-- The fixes of a plan by their numbers, in the order in which they are carried out. -/
def turns : List (Fin plan.fixes.length) :=
  passByPass (plan.fixes.get · |>.fix) (List.finRange plan.fixes.length)

/-- Whether a fix was applied, by the outcomes of all fixes. -/
def wasApplied (outcomes : List FixOutcome) (number : Fin plan.fixes.length) : Bool :=
  (plan.turns.zip outcomes).any fun (turn, outcome) => turn = number && outcome.status = .applied

/-- The plan without the fixes that were dropped. -/
def withoutDropped (outcomes : List FixOutcome) : FixPlan :=
  { plan with fixes := ((List.finRange plan.fixes.length).filter (plan.wasApplied outcomes)).map plan.fixes.get }

theorem inPassOrder_eq_turns : plan.inPassOrder = plan.turns.map plan.fixes.get := by
  have numbered : (List.finRange plan.fixes.length).map plan.fixes.get = plan.fixes := List.map_get_finRange _
  calc plan.inPassOrder
      = passByPass (·.fix) plan.fixes := rfl
    _ = passByPass (·.fix) ((List.finRange plan.fixes.length).map plan.fixes.get) := by rw [numbered]
    _ = plan.turns.map plan.fixes.get := passByPass_map _ _ _

/-- The other fixes keep their order. -/
theorem inPassOrder_withoutDropped (outcomes : List FixOutcome) :
    (plan.withoutDropped outcomes).inPassOrder = (plan.turns.filter (plan.wasApplied outcomes)).map plan.fixes.get := by
  have order := passByPass_map (·.fix) plan.fixes.get
    ((List.finRange plan.fixes.length).filter (plan.wasApplied outcomes))
  rw [passByPass_filter] at order
  exact order

end FixPlan

/-- Of items that all differ, those are left whose own partner passes a test. -/
theorem filter_any_zip {α β : Type} [DecidableEq α] (test : β → Bool) {items : List α} {partners : List β}
    (nodup : items.Nodup) (same : partners.length = items.length) :
    (items.filter fun a => (items.zip partners).any fun (b, partner) => b = a && test partner) =
      ((items.zip partners).filter (test ·.2)).map (·.1) := by
  induction items generalizing partners with
  | nil => rfl
  | cons a items ih =>
      obtain _ | ⟨partner, partners⟩ := partners
      · cases same
      · obtain ⟨new, nodup⟩ := List.nodup_cons.mp nodup
        have own : ((a :: items).zip (partner :: partners)).any (fun (b, partner) => b = a && test partner) =
            test partner := by
          have others : (items.zip partners).any (fun (b, partner) => b = a && test partner) = false := by
            rw [List.any_eq_false]
            rintro ⟨b, other⟩ here
            have differs : b ≠ a := fun same => new (same ▸ (List.of_mem_zip here).1)
            simp [differs]
          rw [List.zip_cons_cons, List.any_cons, others]
          simp
        have rest : (items.filter fun b => ((a :: items).zip (partner :: partners)).any
            fun (c, partner) => c = b && test partner) =
            items.filter fun b => (items.zip partners).any fun (c, partner) => c = b && test partner := by
          refine List.filter_congr fun b here => ?_
          have differs : a ≠ b := fun same => new (same ▸ here)
          rw [List.zip_cons_cons, List.any_cons]
          simp [differs]
        rw [List.filter_cons, own, rest, ih nodup (Nat.succ.inj same), List.zip_cons_cons, List.filter_cons]
        cases test partner <;> rfl

/-- The fixes that were applied, of fixes and their outcomes. -/
def appliedAmong (fixes : List PlannedFix) (outcomes : List FixOutcome) : List PlannedFix :=
  ((fixes.zip outcomes).filter (·.2.status = .applied)).map (·.1)

theorem FixPlan.inPassOrder_withoutDropped_eq (plan : FixPlan) {outcomes : List FixOutcome}
    (length : outcomes.length = plan.turns.length) :
    (plan.withoutDropped outcomes).inPassOrder = appliedAmong plan.inPassOrder outcomes := by
  have left := filter_any_zip (fun outcome : FixOutcome => outcome.status = .applied)
    (nodup_passByPass _ (List.nodup_finRange _)) length
  rw [plan.inPassOrder_withoutDropped, plan.inPassOrder_eq_turns, appliedAmong, List.zip_map_left, List.filter_map,
    List.map_map]
  exact (congrArg _ left).trans List.map_map

namespace Progress

/-- Without the fixes that were dropped, the others come to what they came to before. -/
theorem applyAll_appliedAmong (o : RepairOptions) (p : Progress) (fixes : List PlannedFix) :
    applyAll o p (appliedAmong fixes (applyAll o p fixes).1) =
      ((applyAll o p fixes).1.filter (·.status = .applied), (applyAll o p fixes).2) := by
  induction fixes generalizing p with
  | nil => rfl
  | cons planned rest ih =>
      cases done : p.apply o planned.fix with
      | error reason =>
          -- The first fix is left out, and the others begin with the same progress.
          have dropped : applyAll o p (planned :: rest) =
              (outcome planned (.error reason) :: (applyAll o p rest).1, (applyAll o p rest).2) := by
            rw [applyAll, done]
          rw [dropped]
          exact ih p
      | ok result =>
          obtain ⟨names, next⟩ := result
          have applied (others : List PlannedFix) : applyAll o p (planned :: others) =
              (outcome planned (.ok (names, next)) :: (applyAll o next others).1, (applyAll o next others).2) := by
            rw [applyAll, done]
          have first : appliedAmong (planned :: rest) (applyAll o p (planned :: rest)).1 =
              planned :: appliedAmong rest (applyAll o next rest).1 := by
            rw [applied]
            rfl
          rw [first, applied, ih next, applied]
          rfl

end Progress

/-- A fix that is dropped leaves no trace: carried out in place it leaves the progress as it was, and a plan without the
fixes that were dropped comes to the same tree, by the same outcomes of the other fixes. -/
theorem dropped_fixes_leave_no_trace (t : Tree) (plan : FixPlan) (o : RepairOptions) :
    (∀ (p q : Progress) (fix : Fix),
      (∀ names, (InPlace.apply o fix).result p = (.ok names, q) ↔ p.apply o fix = .ok (names, q)) ∧
        ∀ reason, (InPlace.apply o fix).result p = (.error reason, q) ↔ p.apply o fix = .error reason ∧ q = p) ∧
      (InPlace.applyAll o plan.inPassOrder).run { tree := t } = Progress.applyAll o { tree := t } plan.inPassOrder ∧
      t.carryOut (plan.withoutDropped (t.carryOut plan o).1) o =
        ((t.carryOut plan o).1.filter (·.status = .applied), (t.carryOut plan o).2) := by
  refine ⟨fun p q fix => ?_, InPlace.run_applyAll o _ _, ?_⟩
  · rw [InPlace.result_apply]
    cases p.apply o fix with
    | error reason => simp [InPlace.settled, eq_comm]
    | ok result => simp [InPlace.settled, Prod.ext_iff]
  · have length : (Progress.applyAll o { tree := t } plan.inPassOrder).1.length = plan.turns.length := by
      rw [Progress.length_applyAll, plan.inPassOrder_eq_turns, List.length_map]
    have left := Progress.applyAll_appliedAmong o { tree := t } plan.inPassOrder
    rw [← plan.inPassOrder_withoutDropped_eq length] at left
    exact congrArg (fun run => (run.1, run.2.tree)) left

end BindingRepair
