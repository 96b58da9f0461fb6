/-
# Runs

A run plans the repair of all files that a report is about, repairs those with fixes, and tells what
became of them.
-/

import BindingRepair.Json.Writer
import BindingRepair.Planning
import BindingRepair.Run.FileRun
import BindingRepair.Summary

namespace BindingRepair

/-- The preview of all plans. -/
def PlanDocument.ofIntake (s : Settings) (tool : ToolInfo) (i : Intake) : PlanDocument where
  schema := schemaName
  tool := tool
  intake := i.stats
  plans := planFiles s.vocabulary i.files

/-- The plans with fixes. -/
def plansToRun (s : Settings) (i : Intake) : List FixPlan :=
  (planFiles s.vocabulary i.files).filter (!·.isEmpty)

namespace RunSummary

/-- Counts what became of a file. Fixes count only where the file was repaired; those of a file that
stays as it is count as dropped. -/
def count (s : RunSummary) (r : FileReport) : RunSummary :=
  let applied := r.fixes.countP (·.status = .applied)
  let dropped := r.fixes.length - applied
  match r.status with
  | .changed =>
    { s with
      changedFiles := s.changedFiles + 1
      fixesApplied := s.fixesApplied + applied
      fixesDropped := s.fixesDropped + dropped }
  | .unchanged =>
    { s with unchangedFiles := s.unchangedFiles + 1, fixesDropped := s.fixesDropped + dropped }
  | .parseFailed => { s with parseFailures := s.parseFailures + 1 }
  | .readFailed | .writeFailed | .preconditionFailed => { s with ioFailures := s.ioFailures + 1 }
  | .panicked => { s with panicked := s.panicked + 1 }

/-- The counts of a run with `touched` plans. -/
def ofReports (touched : Nat) (reports : List FileReport) : RunSummary :=
  reports.foldl count { touchedFiles := touched }

end RunSummary

/-- When a run began and ended. -/
structure RunTimes where
  startedAt : Option Instant := none
  endedAt : Option Instant := none
deriving DecidableEq, Repr

/-- The report of a run and the patch of all changes. -/
structure RunOutcome where
  report : RunReport
  patch : String
deriving DecidableEq, Repr

namespace RunOutcome

/-- The order of files in a report. -/
def fileOrder (a b : FileRun) : Bool :=
  a.report.path ≤ b.report.path

/-- The outcome of a run from what became of its files. -/
def ofFileRuns (s : Settings) (tool : ToolInfo) (stats : IntakeStats) (times : RunTimes)
    (touched : Nat) (files : List FileRun) : RunOutcome :=
  let files := files.mergeSort fileOrder
  let reports := files.map (·.report)
  { report := {
      schema := RunReport.schemaName
      tool := tool
      startedAt := times.startedAt
      endedAt := times.endedAt
      dryRun := s.dryRun
      intake := stats
      summary := RunSummary.ofReports touched reports
      files := reports }
    patch := String.join (files.map (·.patch)) }

/-- Repairs all files that have fixes. -/
def ofIntake (s : Settings) (tool : ToolInfo) (times : RunTimes) (i : Intake) :
    FileProgram RunOutcome :=
  let plans := plansToRun s i
  (FileRun.ofPlans s plans).map (ofFileRuns s tool i.stats times plans.length)

/-- What a run writes besides the repaired files: where it goes, and its text. -/
def artifacts (s : Settings) (o : RunOutcome) : List (String × String) :=
  (s.reportOut.map (·, o.report.toJson.pretty)).toList ++
    (s.summaryOut.map (·, Summary.ofRun o.report)).toList ++
    (s.patchOut.map (·, o.patch)).toList

/-- Writes texts one after another, up to the first that cannot be written. -/
def writeAll : List (String × String) → FileProgram (Except String Unit)
  | [] => .done (.ok ())
  | (path, text) :: rest => .write path text fun
    | .error cause => .done (.error cause)
    | .ok () => writeAll rest

/-- Writes what the settings ask for besides the repaired files. -/
def writeArtifacts (s : Settings) (o : RunOutcome) : FileProgram (Except String Unit) :=
  writeAll (o.artifacts s)

end RunOutcome

end BindingRepair
