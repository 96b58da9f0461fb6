/-
# Fixes

The four kinds of repair, and the plan of all repairs of a file. A fix has a key that no other fix
shares, and an identifier that follows from its file and its key.
-/

import BindingRepair.Diagnostic
import BindingRepair.Digest.Uuid
import BindingRepair.Json.Decode
import BindingRepair.SortedTable

namespace BindingRepair

open Text

inductive Fix
  /-- Gives the binding of a name at a place another name. -/
  | rename (position : Position) (name : String)
  /-- Imports names from a module, perhaps only if something is imported from it already. -/
  | importMerge (module : String) (names : NameSet) (onlyIfImported : Bool)
  /-- Declares a value and its setter. -/
  | pairedDeclaration (value setter : String)
  /-- Declares a name. -/
  | singleDeclaration (name : String)
deriving DecidableEq, Repr

/-- When a fix is carried out: imports first, then declarations, then renames. -/
inductive Pass
  | imports
  | declarations
  | renames
deriving DecidableEq, Repr

namespace Pass

def number : Pass → Nat
  | imports => 0
  | declarations => 1
  | renames => 2

def all : List Pass :=
  [imports, declarations, renames]

end Pass

def Text.Position.toJson (p : Position) : Json :=
  .object [("line", .nat p.line), ("column", .nat p.column)]

def Text.Position.ofJson? (j : Json) : Option Position := do
  let j ← j.document? ["line", "column"]
  return { line := ← j.required "line" Json.word?, column := ← j.required "column" Json.word? }

namespace Fix

/-- A text that tells the fix from every other. -/
def key : Fix → String
  | rename position name => "rename|" ++ position.render ++ "|" ++ name
  | importMerge module names onlyIfImported =>
    "import|" ++ module ++ "|" ++ ",".intercalate names ++ "|" ++
      (if onlyIfImported then "true" else "false")
  | pairedDeclaration value setter => "pair|" ++ value ++ "|" ++ setter
  | singleDeclaration name => "single|" ++ name

def label : Fix → String
  | rename .. => "rename"
  | importMerge .. => "import_merge"
  | pairedDeclaration .. => "paired_declaration"
  | singleDeclaration .. => "single_declaration"

/-- All labels. The fix of a plan may be given by the place of its label among these. -/
def labels : List String :=
  ["rename", "import_merge", "paired_declaration", "single_declaration"]

/-- The label that a value gives: the label itself, or its place among all labels. -/
def labelOf? : Json → Option String
  | .integer n => if 0 ≤ n then labels[n.toNat]? else none
  | j => j.string?

def pass : Fix → Pass
  | importMerge .. => .imports
  | pairedDeclaration .. | singleDeclaration .. => .declarations
  | rename .. => .renames

/-- The fields that describe the fix. -/
def fields (fix : Fix) : List (String × Json) :=
  ("type", .string fix.label) :: match fix with
    | rename position name => [("at", position.toJson), ("name", .string name)]
    | importMerge module names onlyIfImported =>
      [("module", .string module), ("names", .strings names),
        ("only_if_imported", .bool onlyIfImported)]
    | pairedDeclaration value setter =>
      [("value_name", .string value), ("setter_name", .string setter)]
    | singleDeclaration name => [("name", .string name)]

/-- The fix of a kind that fields describe. -/
def ofFields? (kind : String) (fields : Json) : Option Fix := do
  match kind with
  | "rename" =>
    let j ← fields.document? ["at", "name"]
    return rename (← j.required "at" Position.ofJson?) (← j.required "name" Json.string?)
  | "import_merge" =>
    let j ← fields.document? ["module", "names", "only_if_imported"]
    return importMerge (← j.required "module" Json.string?)
      (NameSet.ofNames (← j.required "names" Json.strings?))
      (← j.withDefault "only_if_imported" false Json.bool?)
  | "paired_declaration" =>
    let j ← fields.document? ["value_name", "setter_name"]
    return pairedDeclaration (← j.required "value_name" Json.string?)
      (← j.required "setter_name" Json.string?)
  | "single_declaration" =>
    let j ← fields.document? ["name"]
    return singleDeclaration (← j.required "name" Json.string?)
  | _ => none

/-- The fix that an object describes, or an array that begins with the kind of the fix. -/
def ofJson? (j : Json) : Option Fix := do
  match j with
  | .array (kind :: values) => ofFields? (← kind.string?) (.array values)
  | j => ofFields? (← j.required "type" Json.string?) j

end Fix

/-! ### Plans -/

/-- The name space of the identifiers of fixes. -/
def fixIdSpace : List UInt8 :=
  [0x7a, 0x1e, 0x0c, 0x93, 0x5b, 0x2f, 0x4d, 0x61, 0x9a, 0x44, 0x1f, 0xe2, 0x08, 0xb7, 0x3c, 0x55]

/-- A fix and its identifier. -/
structure PlannedFix where
  id : String
  fix : Fix
deriving DecidableEq, Repr

namespace PlannedFix

/-- A fix of a file. Its identifier is the same in every run. -/
def ofFix (filePath : String) (fix : Fix) : PlannedFix :=
  { id := Digest.uuidOfName fixIdSpace (filePath ++ "|" ++ fix.key), fix }

def toJson (p : PlannedFix) : Json :=
  .object (("id", .string p.id) :: p.fix.fields)

/-- The planned fix that an object describes. -/
def ofJson? (j : Json) : Option PlannedFix := do
  return {
    id := ← j.required "id" Json.string?
    fix := ← Fix.ofFields? (← j.required "type" Fix.labelOf?) j }

end PlannedFix

/-- All that a repair of a file is to do. -/
structure FixPlan where
  filePath : String
  fixes : List PlannedFix := []
  /-- How many diagnostics led to no fix. -/
  exempt : Nat := 0
deriving DecidableEq, Repr

namespace FixPlan

def isEmpty (plan : FixPlan) : Bool :=
  plan.fixes.isEmpty

/-- The plan with one more fix, unless it holds that fix already. -/
def push (plan : FixPlan) (fix : Fix) : FixPlan :=
  if plan.fixes.any (·.fix = fix) then plan
  else { plan with fixes := plan.fixes ++ [PlannedFix.ofFix plan.filePath fix] }

/-- The fixes in the order in which they are carried out. -/
def inPassOrder (plan : FixPlan) : List PlannedFix :=
  Pass.all.flatMap fun pass => plan.fixes.filter (·.fix.pass = pass)

/-- The order of places. -/
def positionBefore (a b : Position) : Bool :=
  a.line < b.line || (a.line == b.line && a.column < b.column)

/-- The names to be changed, by their places. -/
def renameTargets (plan : FixPlan) : SortedTable Position String :=
  plan.fixes.foldl (fun table planned =>
    match planned.fix with
    | .rename position name => table.insert positionBefore position name
    | _ => table) []

/-- The names to be imported, by their modules. -/
def capabilityImports (plan : FixPlan) : SortedTable String NameSet :=
  plan.fixes.foldl (fun table planned =>
    match planned.fix with
    | .importMerge module names _ =>
      table.alter SortedTable.nameBefore module fun old => (old.getD []).union names
    | _ => table) []

/-- The values and setters to be declared. -/
def pairedDeclarations (plan : FixPlan) : List (String × String) :=
  plan.fixes.filterMap fun planned =>
    match planned.fix with
    | .pairedDeclaration value setter => some (value, setter)
    | _ => none

/-- The single names to be declared. -/
def singleDeclarations (plan : FixPlan) : List String :=
  plan.fixes.filterMap fun planned =>
    match planned.fix with
    | .singleDeclaration name => some name
    | _ => none

def toJson (plan : FixPlan) : Json :=
  .object [
    ("file_path", .string plan.filePath),
    ("fixes", .array (plan.fixes.map PlannedFix.toJson)),
    ("exempt", .nat plan.exempt)]

def ofJson? (j : Json) : Option FixPlan := do
  let j ← j.document? ["file_path", "fixes", "exempt"]
  return {
    filePath := ← j.required "file_path" Json.string?
    fixes := ← j.withDefault "fixes" [] (Json.listOf PlannedFix.ofJson?)
    exempt := ← j.withDefault "exempt" 0 Json.natural? }

end FixPlan

end BindingRepair
