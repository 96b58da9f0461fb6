/-
# Intake

Selects the findings of an analyzer's report that can be repaired: those in script files of the source
tree that exist and are not excluded. They are grouped by file, and each record is counted.
-/

import BindingRepair.Glob
import BindingRepair.Intake.Record
import BindingRepair.Path
import BindingRepair.Report
import BindingRepair.SortedTable

namespace BindingRepair

/-- Which files may be repaired. -/
structure IntakeOptions where
  /-- The directory that absolute paths are taken relative to. -/
  repoRoot : String := "."
  /-- The directory below it that holds the source tree. -/
  sourceRoot : String := "src"
  /-- The extensions of the files that may be repaired. -/
  extensions : List String := ["js", "jsx", "mjs", "cjs", "ts", "tsx", "mts", "cts"]
  /-- Patterns of the paths that must be left alone. -/
  exclude : List String := []
deriving DecidableEq, Repr

inductive IntakeError
  /-- The report cannot be read. -/
  | unreadable (path cause : String)
  /-- The text of the report is no value. -/
  | notJson (path : String)
  /-- The value is no report. -/
  | notAReport
  | badPattern (pattern : String) (error : GlobError)
deriving DecidableEq, Repr

/-- The error in words. -/
def IntakeError.message : IntakeError → String
  | unreadable path cause => "cannot read diagnostic report " ++ path ++ ": " ++ cause
  | notJson path => "diagnostic report " ++ path ++ " is not valid JSON"
  | notAReport => "diagnostic report has an unrecognized shape: " ++
      "expected an array of records or lint results"
  | badPattern pattern error => "invalid exclude pattern '" ++ pattern ++ "': " ++ error.message

namespace IntakeOptions

variable (o : IntakeOptions)

/-- The names of a path, relative to the root of the repository. -/
def relativeNames? (path : String) : Option (List String) := do
  Path.names? (← if Path.isAbsolute path then Path.below? o.repoRoot path
    else some (Path.components path))

/-- The names of a path inside the source tree, relative to the root of the repository. -/
def managedNames? (path : String) : Option (List String) := do
  let names ← o.relativeNames? path
  let tree ← Path.names? (Path.components o.sourceRoot)
  if tree.isPrefixOf names then some names else none

/-- A path inside the source tree, in the one form that all its spellings have. -/
def managedPath? (path : String) : Option String :=
  (o.managedNames? path).map Path.ofNames

/-- Whether files with the extension of a path may be repaired. -/
def supportsExtension (path : String) : Bool :=
  (Path.extension? path).any fun extension =>
    o.extensions.any fun e => e.map Char.toLower = extension.map Char.toLower

/-- The patterns of the paths that must be left alone. -/
def excludePatterns : Except IntakeError (List Glob) :=
  o.exclude.mapM fun pattern => (Glob.ofText pattern).mapError (.badPattern pattern)

end IntakeOptions

/-- What becomes of a record. -/
inductive Verdict
  /-- Its file is to be repaired. -/
  | accepted (names : List String) (diagnostic : Diagnostic)
  | rejected (cause : Rejection)
  | outsideTree
  | excluded
  | unsupportedExtension
  | missingFile
deriving DecidableEq, Repr

/-- The findings to repair, by file in the order of paths, and what became of all records. -/
structure Intake where
  groups : SortedTable (List String) (List Diagnostic) := []
  stats : IntakeStats := {}
deriving DecidableEq, Repr

namespace Intake

/-- The verdict on a record, where `isFile` tells which relative paths are files. -/
def verdict (o : IntakeOptions) (patterns : List Glob) (isFile : String → Bool)
    (record : ReportRecord) : Verdict :=
  match record.toDiagnostic with
  | .error cause => .rejected cause
  | .ok diagnostic =>
    match o.managedNames? diagnostic.filePath with
    | none => .outsideTree
    | some names =>
      let path := Path.ofNames names
      if patterns.any (·.isMatch path) then .excluded
      else if !o.supportsExtension path then .unsupportedExtension
      else if !isFile path then .missingFile
      else .accepted names { diagnostic with filePath := path }

/-- Counts a verdict. -/
def count (s : IntakeStats) : Verdict → IntakeStats
  | .accepted .. => { s with accepted := s.accepted + 1 }
  | .rejected .malformed => { s with malformed := s.malformed + 1 }
  | .rejected .ignoredRule => { s with ignoredRule := s.ignoredRule + 1 }
  | .rejected .belowSeverity => { s with belowSeverity := s.belowSeverity + 1 }
  | .outsideTree => { s with outsideTree := s.outsideTree + 1 }
  | .excluded => { s with excluded := s.excluded + 1 }
  | .unsupportedExtension => { s with unsupportedExtension := s.unsupportedExtension + 1 }
  | .missingFile => { s with missingFile := s.missingFile + 1 }

/-- Takes note of the verdict on one more record. -/
def record (i : Intake) (v : Verdict) : Intake where
  groups :=
    match v with
    | .accepted names diagnostic =>
      i.groups.alter Path.before names fun old => old.getD [] ++ [diagnostic]
    | _ => i.groups
  stats := count { i.stats with recordsTotal := i.stats.recordsTotal + 1 } v

/-- Takes in a report, where `isFile` tells which relative paths are files. -/
def ofReport (o : IntakeOptions) (isFile : String → Bool) (report : Json) :
    Except IntakeError Intake := do
  let some records := ReportRecord.ofReport? report | throw .notAReport
  let patterns ← o.excludePatterns
  return (records.map (verdict o patterns isFile)).foldl record {}

/-- The relative paths whose existence matters to a report. -/
def paths (o : IntakeOptions) (report : Json) : List String :=
  ((ReportRecord.ofReport? report).getD []).filterMap fun record => do
    o.managedPath? (← record.filePath)

/-- The findings of each file, in the order of paths. -/
def files (i : Intake) : List (String × List Diagnostic) :=
  i.groups.map fun (names, diagnostics) => (Path.ofNames names, diagnostics)

end Intake

end BindingRepair
