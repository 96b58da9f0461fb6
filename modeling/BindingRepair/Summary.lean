/-
# Summaries

Plans and run reports in Markdown, for people to read.
-/

import BindingRepair.Report
import BindingRepair.Text.Cursor

namespace BindingRepair.Summary

open Text

/-- A text between the marks of code. -/
def code (text : String) : String :=
  "`" ++ text ++ "`"

/-- A line that begins with a bullet. -/
def bullet (text : String) : String :=
  "- " ++ text ++ "\n"

/-- What a fix is going to do. -/
def describe : Fix → String
  | .rename position name => "rename " ++ code name ++ " at " ++ position.render
  | .importMerge module names onlyIfImported =>
    "import " ++ code (", ".intercalate names) ++ " from " ++ code module ++
      (if onlyIfImported then " (only into an existing import)" else "")
  | .pairedDeclaration value setter =>
    "declare state " ++ code ("[" ++ value ++ ", " ++ setter ++ "]")
  | .singleDeclaration name => "declare " ++ code name

/-- The fixes of one file. -/
def planSection (plan : FixPlan) : String :=
  "### " ++ code plan.filePath ++ "\n\n" ++
    String.join (plan.fixes.map fun p => bullet (describe p.fix)) ++ "\n"

/-- The plans that hold fixes. -/
def ofPlans (doc : PlanDocument) : String :=
  let planned := doc.plans.filter (!·.isEmpty)
  let fixes := (planned.flatMap (·.fixes)).length
  "# jsmend plan\n\n" ++
    bullet ("Diagnostics: " ++ toString doc.intake.accepted ++ " accepted of " ++
      toString doc.intake.recordsTotal) ++
    bullet ("Files with fixes: " ++ toString planned.length) ++
    bullet ("Fixes: " ++ toString fixes) ++
    "\n## Files\n\n" ++
    if planned.isEmpty then "_No fixes planned._\n" else String.join (planned.map planSection)

/-- The first twelve bytes of a digest, if it has as many and a character ends there. -/
def shortDigest (digest : String) : String :=
  let head := takeBytes 12 digest.toList
  if byteLength head = 12 then String.ofList head else digest

/-- What became of a fix. -/
def outcomeLine (o : FixOutcome) : String :=
  match o.status with
  | .applied => bullet (code o.kind ++ " applied: " ++ ", ".intercalate o.names)
  | .dropped => bullet (code o.kind ++ " dropped: " ++ o.reason.getD "-")

/-- What became of a file. -/
def fileSection (r : FileReport) : String :=
  "### " ++ code r.path ++ " (" ++ r.status.label ++ ")\n\n" ++
    ((r.message.map fun m => bullet ("Message: " ++ m)).getD "") ++
    (match r.sha256Before, r.sha256After with
      | some before, some after =>
        bullet ("sha256: " ++ shortDigest before ++ " → " ++ shortDigest after)
      | _, _ => "") ++
    String.join (r.fixes.map outcomeLine) ++ "\n"

/-- The counts of a run. -/
def counts (s : RunSummary) : String :=
  bullet ("Touched files: " ++ toString s.touchedFiles) ++
    bullet ("Changed files: " ++ toString s.changedFiles) ++
    bullet ("Unchanged files: " ++ toString s.unchangedFiles) ++
    bullet ("Fixes applied: " ++ toString s.fixesApplied) ++
    bullet ("Fixes dropped: " ++ toString s.fixesDropped) ++
    (if s.parseFailures + s.ioFailures + s.panicked > 0 then
      bullet ("Failures: " ++ toString s.parseFailures ++ " parse, " ++ toString s.ioFailures ++
        " io, " ++ toString s.panicked ++ " panicked")
    else "") ++ "\n"

/-- What became of the records, in a table. -/
def intakeTable (s : IntakeStats) : String :=
  let cells := [s.recordsTotal, s.accepted, s.malformed, s.ignoredRule, s.belowSeverity,
    s.outsideTree, s.missingFile, s.unsupportedExtension, s.excluded]
  "## Intake\n\n" ++
    "| records | accepted | malformed | ignored rule | below severity | outside tree | " ++
    "missing file | unsupported | excluded |\n" ++
    "|---|---|---|---|---|---|---|---|---|\n" ++
    "| " ++ " | ".intercalate (cells.map toString) ++ " |\n\n"

/-- A run and its files. -/
def ofRun (r : RunReport) : String :=
  "# jsmend run\n\n" ++
    (if r.dryRun then "_Dry run: no files were written._\n\n" else "") ++
    counts r.summary ++ intakeTable r.intake ++
    "## Files\n\n" ++
    if r.files.isEmpty then "_No files touched._\n" else String.join (r.files.map fileSection)

end BindingRepair.Summary
