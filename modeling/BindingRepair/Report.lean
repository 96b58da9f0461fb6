/-
# Reports

What a run tells about itself: how many records of the analyzer's report were of use, what became of
each file and each fix, and the preview of all plans.
-/

import BindingRepair.Fix
import BindingRepair.Instant

namespace BindingRepair

/-- The name and version of the program that writes a report. -/
structure ToolInfo where
  name : String
  version : Option String
deriving DecidableEq, Repr

namespace ToolInfo

def toJson (t : ToolInfo) : Json :=
  .ofFields [("name", some (.string t.name)), ("version", t.version.map .string)]

def ofJson? (j : Json) : Option ToolInfo := do
  let j ← j.document? ["name", "version"]
  return {
    name := ← j.required "name" Json.string?
    version := ← j.optional "version" Json.string? }

end ToolInfo

/-- What became of the records of an analyzer's report. -/
structure IntakeStats where
  recordsTotal : Nat := 0
  accepted : Nat := 0
  malformed : Nat := 0
  ignoredRule : Nat := 0
  belowSeverity : Nat := 0
  outsideTree : Nat := 0
  missingFile : Nat := 0
  unsupportedExtension : Nat := 0
  excluded : Nat := 0
deriving DecidableEq, Repr

namespace IntakeStats

def toJson (s : IntakeStats) : Json :=
  .object [
    ("records_total", .nat s.recordsTotal),
    ("accepted", .nat s.accepted),
    ("malformed", .nat s.malformed),
    ("ignored_rule", .nat s.ignoredRule),
    ("below_severity", .nat s.belowSeverity),
    ("outside_tree", .nat s.outsideTree),
    ("missing_file", .nat s.missingFile),
    ("unsupported_extension", .nat s.unsupportedExtension),
    ("excluded", .nat s.excluded)]

def ofJson? (j : Json) : Option IntakeStats := do
  let j ← j.document? ["records_total", "accepted", "malformed", "ignored_rule", "below_severity",
    "outside_tree", "missing_file", "unsupported_extension", "excluded"]
  return {
    recordsTotal := ← j.required "records_total" Json.natural?
    accepted := ← j.required "accepted" Json.natural?
    malformed := ← j.required "malformed" Json.natural?
    ignoredRule := ← j.required "ignored_rule" Json.natural?
    belowSeverity := ← j.required "below_severity" Json.natural?
    outsideTree := ← j.required "outside_tree" Json.natural?
    missingFile := ← j.required "missing_file" Json.natural?
    unsupportedExtension := ← j.required "unsupported_extension" Json.natural?
    excluded := ← j.withDefault "excluded" 0 Json.natural? }

end IntakeStats

/-- What became of the files and fixes of a run. -/
structure RunSummary where
  /-- Files with at least one fix. -/
  touchedFiles : Nat := 0
  /-- Files that are written, or would be. -/
  changedFiles : Nat := 0
  unchangedFiles : Nat := 0
  parseFailures : Nat := 0
  /-- Files that could not be read or written, or that were changed meanwhile. -/
  ioFailures : Nat := 0
  panicked : Nat := 0
  fixesApplied : Nat := 0
  fixesDropped : Nat := 0
deriving DecidableEq, Repr

namespace RunSummary

def toJson (s : RunSummary) : Json :=
  .object [
    ("touched_files", .nat s.touchedFiles),
    ("changed_files", .nat s.changedFiles),
    ("unchanged_files", .nat s.unchangedFiles),
    ("parse_failures", .nat s.parseFailures),
    ("io_failures", .nat s.ioFailures),
    ("panicked", .nat s.panicked),
    ("fixes_applied", .nat s.fixesApplied),
    ("fixes_dropped", .nat s.fixesDropped)]

def ofJson? (j : Json) : Option RunSummary := do
  let j ← j.document? ["touched_files", "changed_files", "unchanged_files", "parse_failures",
    "io_failures", "panicked", "fixes_applied", "fixes_dropped"]
  return {
    touchedFiles := ← j.required "touched_files" Json.natural?
    changedFiles := ← j.required "changed_files" Json.natural?
    unchangedFiles := ← j.required "unchanged_files" Json.natural?
    parseFailures := ← j.required "parse_failures" Json.natural?
    ioFailures := ← j.required "io_failures" Json.natural?
    panicked := ← j.withDefault "panicked" 0 Json.natural?
    fixesApplied := ← j.required "fixes_applied" Json.natural?
    fixesDropped := ← j.required "fixes_dropped" Json.natural? }

end RunSummary

inductive FixStatus
  | applied
  | dropped
deriving DecidableEq, Repr

def FixStatus.label : FixStatus → String
  | applied => "applied"
  | dropped => "dropped"

/-- What became of a fix. -/
structure FixOutcome where
  fixId : String
  kind : String
  status : FixStatus
  /-- The names that the fix wrote. -/
  names : List String
  /-- Why the fix was dropped. -/
  reason : Option String
deriving DecidableEq, Repr

namespace FixOutcome

def toJson (o : FixOutcome) : Json :=
  .ofFields [
    ("fix_id", some (.string o.fixId)),
    ("kind", some (.string o.kind)),
    ("status", some (.string o.status.label)),
    ("names", if o.names.isEmpty then none else some (.strings o.names)),
    ("reason", o.reason.map .string)]

def ofJson? (j : Json) : Option FixOutcome := do
  let j ← j.document? ["fix_id", "kind", "status", "names", "reason"]
  return {
    fixId := ← j.required "fix_id" Json.string?
    kind := ← j.required "kind" Json.string?
    status := ← j.required "status" (Json.labelled [.applied, .dropped] FixStatus.label)
    names := ← j.withDefault "names" [] Json.strings?
    reason := ← j.optional "reason" Json.string? }

end FixOutcome

inductive FileStatus
  | changed
  | unchanged
  | parseFailed
  | readFailed
  | writeFailed
  | preconditionFailed
  | panicked
deriving DecidableEq, Repr

namespace FileStatus

def all : List FileStatus :=
  [changed, unchanged, parseFailed, readFailed, writeFailed, preconditionFailed, panicked]

def label : FileStatus → String
  | changed => "changed"
  | unchanged => "unchanged"
  | parseFailed => "parse_failed"
  | readFailed => "read_failed"
  | writeFailed => "write_failed"
  | preconditionFailed => "precondition_failed"
  | panicked => "panicked"

def isFailure : FileStatus → Bool
  | changed | unchanged => false
  | _ => true

end FileStatus

/-- What became of a file. -/
structure FileReport where
  path : String
  status : FileStatus := .unchanged
  message : Option String := none
  sha256Before : Option String := none
  sha256After : Option String := none
  backupPath : Option String := none
  fixes : List FixOutcome := []
deriving DecidableEq, Repr

namespace FileReport

def toJson (r : FileReport) : Json :=
  .ofFields [
    ("path", some (.string r.path)),
    ("status", some (.string r.status.label)),
    ("message", r.message.map .string),
    ("sha256_before", r.sha256Before.map .string),
    ("sha256_after", r.sha256After.map .string),
    ("backup_path", r.backupPath.map .string),
    ("fixes", some (.array (r.fixes.map FixOutcome.toJson)))]

def ofJson? (j : Json) : Option FileReport := do
  let j ← j.document? ["path", "status", "message", "sha256_before", "sha256_after", "backup_path",
    "fixes"]
  return {
    path := ← j.required "path" Json.string?
    status := ← j.required "status" (Json.labelled FileStatus.all FileStatus.label)
    message := ← j.optional "message" Json.string?
    sha256Before := ← j.optional "sha256_before" Json.string?
    sha256After := ← j.optional "sha256_after" Json.string?
    backupPath := ← j.optional "backup_path" Json.string?
    fixes := ← j.withDefault "fixes" [] (Json.listOf FixOutcome.ofJson?) }

end FileReport

/-- The outcome of a run. -/
structure RunReport where
  schema : String
  tool : ToolInfo
  /-- When the run began and ended. -/
  startedAt : Option Instant
  endedAt : Option Instant
  dryRun : Bool
  intake : IntakeStats
  summary : RunSummary
  files : List FileReport
deriving DecidableEq, Repr

namespace RunReport

def schemaName : String := "jsmend.report.v1"

/-- The instant that a string tells. -/
def instant? (j : Json) : Option Instant := do
  Instant.parse? (← j.string?)

def toJson (r : RunReport) : Json :=
  .ofFields [
    ("schema", some (.string r.schema)),
    ("tool", some r.tool.toJson),
    ("started_at", r.startedAt.map fun (i : Instant) => .string i.render),
    ("ended_at", r.endedAt.map fun (i : Instant) => .string i.render),
    ("dry_run", some (.bool r.dryRun)),
    ("intake", some r.intake.toJson),
    ("summary", some r.summary.toJson),
    ("files", some (.array (r.files.map FileReport.toJson)))]

def ofJson? (j : Json) : Option RunReport := do
  let j ← j.document? ["schema", "tool", "started_at", "ended_at", "dry_run", "intake", "summary",
    "files"]
  return {
    schema := ← j.required "schema" Json.string?
    tool := ← j.required "tool" ToolInfo.ofJson?
    startedAt := ← j.optional "started_at" instant?
    endedAt := ← j.optional "ended_at" instant?
    dryRun := ← j.required "dry_run" Json.bool?
    intake := ← j.required "intake" IntakeStats.ofJson?
    summary := ← j.required "summary" RunSummary.ofJson?
    files := ← j.withDefault "files" [] (Json.listOf FileReport.ofJson?) }

/-- Whether some file could not be repaired. -/
def hasFailures (r : RunReport) : Bool :=
  r.files.any (·.status.isFailure)

end RunReport

/-- The preview of all plans of a run. -/
structure PlanDocument where
  schema : String
  tool : ToolInfo
  intake : IntakeStats
  plans : List FixPlan
deriving DecidableEq, Repr

namespace PlanDocument

def schemaName : String := "jsmend.plan.v1"

def toJson (d : PlanDocument) : Json :=
  .object [
    ("schema", .string d.schema),
    ("tool", d.tool.toJson),
    ("intake", d.intake.toJson),
    ("plans", .array (d.plans.map FixPlan.toJson))]

def ofJson? (j : Json) : Option PlanDocument := do
  let j ← j.document? ["schema", "tool", "intake", "plans"]
  return {
    schema := ← j.required "schema" Json.string?
    tool := ← j.required "tool" ToolInfo.ofJson?
    intake := ← j.required "intake" IntakeStats.ofJson?
    plans := ← j.withDefault "plans" [] (Json.listOf FixPlan.ofJson?) }

end PlanDocument

end BindingRepair
