/-
# Carrying out fixes

Each fix either changes the tree and tells which names it wrote, or is dropped for a reason.
-/

import BindingRepair.Fix
import BindingRepair.Repair.Drop
import BindingRepair.Repair.FreshName
import BindingRepair.Report
import BindingRepair.Script.Walk

namespace BindingRepair

open Text Script

structure RepairOptions where
  /-- The function whose call makes a value and its setter. -/
  statePrimitive : String := "useState"
  /-- What is put before the name of a binding that is never used. -/
  reservedPrefix : String := "_"
  /-- Names that the runtime provides besides those of every runtime. -/
  globals : NameSet := []
  /-- How many numbered forms of a name are tried. -/
  maxSuffixAttempts : Nat := 100
deriving DecidableEq, Repr

/-- What the fixes carried out so far have come to. -/
structure Progress where
  tree : Tree
  /-- The import declarations that fixes have added, by module. -/
  newImports : SortedTable String NodeId := []

/-- The names that a fix wrote and what it led to, or why it was dropped. -/
abbrev FixResult := Except DropReason (List String × Progress)

namespace Progress

/-- The first import declaration in the source that names from a module can be added to. -/
def openImport? (p : Progress) (module : String) : Option NodeId :=
  (p.tree.imports.find? fun (id, i) =>
    i.source == module && i.acceptsNames && !(p.tree.spanOf id).isEmpty).map (·.1)

/-- An edit of the tree, or the fix dropped if the tree refuses it. -/
def edited {α : Type} (edit : Except EditError α) : Except DropReason α :=
  edit.mapError .refused

/-- Imports those of the names that are not bound in the module. -/
def mergeImport (p : Progress) (module : String) (names : NameSet) (onlyIfImported : Bool) :
    FixResult := do
  let missing := names.filter fun name => !p.tree.scopes.binds Tree.moduleScope name
  if missing.isEmpty then throw .alreadyImported
  match p.openImport? module <|> p.newImports.lookup module with
  | some id =>
    let tree ← edited (p.tree.addImportNames id missing)
    return (missing, { p with tree })
  | none =>
    if onlyIfImported then throw (.noImport module)
    let (id, tree) := p.tree.insertImport module missing
    return (missing,
      { tree, newImports := p.newImports.insert SortedTable.nameBefore module id })

/-- The first component and its body. -/
def componentBody (p : Progress) : Except DropReason (NodeId × FunctionBody) := do
  let some component := p.tree.firstComponent? | throw .noComponent
  return (component, ← edited (p.tree.blockBody component))

/-- A free name for a use in a scope. -/
def freshName (p : Progress) (o : RepairOptions) (s : ScopeId) (use : NameUse) (name : String) :
    Except DropReason String :=
  match p.tree.freshName? s use o.globals o.maxSuffixAttempts name with
  | some fresh => .ok fresh
  | none => .error (.noFreeName name)

/-- Declares a value and its setter in the first component. -/
def declarePair (p : Progress) (o : RepairOptions) (value setter : String) : FixResult := do
  if !isIdentifier value then throw (.notAnIdentifier value)
  let (component, body) ← p.componentBody
  if p.tree.scopes.binds body.scope value || p.tree.scopes.binds body.scope setter then
    throw .alreadyDeclared
  let freshValue ← p.freshName o body.scope .declaration value
  let freshSetter ← p.freshName o body.scope .declaration setter
  if freshValue = freshSetter then throw (.declaredTwice freshValue)
  let (_, tree) ← edited
    (p.tree.declareState component freshValue freshSetter o.statePrimitive)
  return ([freshValue, freshSetter], { p with tree })

/-- Declares a name in the first component. -/
def declareSingle (p : Progress) (o : RepairOptions) (name : String) : FixResult := do
  let (component, body) ← p.componentBody
  if p.tree.scopes.binds body.scope name then throw .alreadyDeclared
  let fresh ← p.freshName o body.scope .declaration name
  let (_, tree) ← edited (p.tree.declareNull component fresh)
  return ([fresh], { p with tree })

/-- Marks the binding of a name at a place as unused on purpose, unless it is used after all. -/
def rename (p : Progress) (o : RepairOptions) (position : Position) (name : String) :
    FixResult := do
  let some offset := p.tree.offset? position | throw (.outsideFile position)
  let some id := (p.tree.bindingsAt offset).find? fun id => p.tree.name? id == some name
    | throw (.noBinding name position)
  let some site := (p.tree.identifier? id).bind (·.site?) | throw (.notABinding name position)
  if site.exported then throw (.exported name)
  if p.tree.isReferenced id then throw (.referenced name)
  let fresh ← p.freshName o (p.tree.scopeOf id) .rename (o.reservedPrefix ++ name)
  let tree ← edited (p.tree.rename id fresh)
  return ([fresh], { p with tree })

/-- Carries out a fix. -/
def apply (p : Progress) (o : RepairOptions) : Fix → FixResult
  | .importMerge module names onlyIfImported => p.mergeImport module names onlyIfImported
  | .pairedDeclaration value setter => p.declarePair o value setter
  | .singleDeclaration name => p.declareSingle o name
  | .rename position name => p.rename o position name

/-- What is reported of a fix. -/
def outcome (planned : PlannedFix) (result : FixResult) : FixOutcome :=
  match result with
  | .ok (names, _) =>
    { fixId := planned.id, kind := planned.fix.label, status := .applied, names, reason := none }
  | .error reason =>
    { fixId := planned.id, kind := planned.fix.label, status := .dropped, names := [],
      reason := some reason.message }

/-- Carries out fixes one after another. -/
def applyAll (o : RepairOptions) (p : Progress) : List PlannedFix → List FixOutcome × Progress
  | [] => ([], p)
  | planned :: rest =>
    let result := p.apply o planned.fix
    let next := match result with
      | .ok (_, next) => next
      | .error _ => p
    let (outcomes, last) := applyAll o next rest
    (outcome planned result :: outcomes, last)

end Progress

/-- Carries out a plan, pass by pass. -/
def Script.Tree.carryOut (t : Tree) (plan : FixPlan) (o : RepairOptions) :
    List FixOutcome × Tree :=
  let (outcomes, p) := Progress.applyAll o { tree := t } plan.inPassOrder
  (outcomes, p.tree)

end BindingRepair
