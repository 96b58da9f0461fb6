/-
# Planning

Turns the diagnostics of a file into a plan of fixes. How a name that is never declared is to be
declared follows from the name alone; a binding that is never used is renamed.
-/

import BindingRepair.Fix
import BindingRepair.Vocabulary

namespace BindingRepair

/-- How a name that is never declared is to be declared. -/
inductive Remedy
  /-- Imported from the module that is known to export it. -/
  | capability (module : String)
  /-- Declared as a setter, together with its value. -/
  | pair (value setter : String)
  /-- Imported from the module of icons, if something is imported from it already. -/
  | icon (module : String)
  /-- Declared as a variable. -/
  | placeholder
  /-- Not at all: the runtime provides it. -/
  | global
deriving DecidableEq, Repr

/-- A name that is to be imported. -/
structure ImportRequest where
  module : String
  onlyIfImported : Bool
  name : String
deriving DecidableEq, Repr

/-- Modules, each perhaps only if something is imported from it, with the names to import. -/
abbrev ImportTable := SortedTable (String × Bool) NameSet

namespace ImportTable

/-- The order of modules; where something must be imported already comes second. -/
def before (a b : String × Bool) : Bool :=
  a.1 < b.1 || (a.1 == b.1 && !a.2 && b.2)

/-- The table with one more name. -/
def request (table : ImportTable) (r : ImportRequest) : ImportTable :=
  SortedTable.alter before (r.module, r.onlyIfImported)
    (fun names => NameSet.insert r.name (names.getD [])) table

end ImportTable

namespace Vocabulary

variable (v : Vocabulary)

/-- The remedy for a name: the first that fits it. -/
def remedy (name : String) : Remedy :=
  match v.moduleOf? name with
  | some module => .capability module
  | none =>
    match v.valueOfSetter? name with
    | some value => .pair value name
    | none =>
      if v.isGlobal name then .global
      else if startsUpper name then .icon v.iconModule
      else .placeholder

/-- The import that the remedy for a name calls for. -/
def importRequest? (name : String) : Option ImportRequest :=
  match v.remedy name with
  | .capability module => some ⟨module, false, name⟩
  | .pair _ _ => some ⟨v.stateModule, false, v.statePrimitive⟩
  | .icon module => some ⟨module, true, name⟩
  | .placeholder | .global => none

/-- The value and setter that the remedy for a name declares. -/
def declaredPair? (name : String) : Option (String × String) :=
  match v.remedy name with
  | .pair value setter => some (value, setter)
  | _ => none

/-- Whether a name gets a variable of its own; it gets none if it is the value of a declared
setter. -/
def needsVariable (values : List String) (name : String) : Bool :=
  v.remedy name == .placeholder && !values.contains name

end Vocabulary

/-- The names that the diagnostics report as never declared, each once. -/
def undeclaredNames (diagnostics : List Diagnostic) : List String :=
  ((diagnostics.filter (·.ruleKind = .undeclaredReference)).map (·.symbolName)).eraseDups

/-- The bindings that the diagnostics report as never used, without those that may go unused. -/
def unusedBindings (v : Vocabulary) (diagnostics : List Diagnostic) : List Diagnostic :=
  diagnostics.filter fun d => d.ruleKind = .unusedBinding && !v.mayGoUnused d.symbolName

/-- The fixes that the diagnostics of a file call for, pass by pass. A fix may occur repeatedly. -/
def requiredFixes (v : Vocabulary) (diagnostics : List Diagnostic) : List Fix :=
  let names := undeclaredNames diagnostics
  let pairs := names.filterMap v.declaredPair?
  let imports := (names.filterMap v.importRequest?).foldl ImportTable.request []
  let singles := names.filter (v.needsVariable (pairs.map (·.1)))
  (imports.map fun ((module, onlyIfImported), names) => .importMerge module names onlyIfImported) ++
    (pairs.map fun (value, setter) => .pairedDeclaration value setter) ++
    singles.map .singleDeclaration ++
    (unusedBindings v diagnostics).map fun d => .rename d.position d.symbolName

/-- Whether a name that is never declared is reported to no effect. -/
def isExemptName (v : Vocabulary) (values : List String) (name : String) : Bool :=
  match v.remedy name with
  | .global => true
  | .placeholder => values.contains name
  | _ => false

/-- How many diagnostics call for no fix: bindings that may go unused, names that are reported
already, names that the runtime provides, and values that are declared with their setters. -/
def exemptCount (v : Vocabulary) (diagnostics : List Diagnostic) : Nat :=
  let names := undeclaredNames diagnostics
  let values := (names.filterMap v.declaredPair?).map (·.1)
  diagnostics.length - (unusedBindings v diagnostics).length - names.length +
    names.countP (isExemptName v values)

/-- The plan for a file. -/
def planFile (v : Vocabulary) (filePath : String) (diagnostics : List Diagnostic) : FixPlan :=
  (requiredFixes v diagnostics).foldl FixPlan.push
    { filePath, exempt := exemptCount v diagnostics }

/-- The plans for all files. -/
def planFiles (v : Vocabulary) (files : List (String × List Diagnostic)) : List FixPlan :=
  files.map fun (filePath, diagnostics) => planFile v filePath diagnostics

end BindingRepair
