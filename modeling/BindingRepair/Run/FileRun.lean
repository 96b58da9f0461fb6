/-
# Repairing a file

Reads a file, repairs its text, and writes it if the repair changed it and the file has not changed
meanwhile. What went wrong is recorded; nothing keeps other files from being repaired.
-/

import BindingRepair.Diff
import BindingRepair.Digest.Sha256
import BindingRepair.Repair
import BindingRepair.Run.FileProgram
import BindingRepair.Settings

namespace BindingRepair

/-- What became of a file, and the patch from its old text to its new one. -/
structure FileRun where
  report : FileReport
  patch : String := ""
deriving DecidableEq, Repr

/-- The path of the copy of a file. -/
def backupPath (path suffix : String) : String :=
  path ++ suffix

namespace FileRun

/-- A file that could not be repaired. -/
def failed (report : FileReport) (status : FileStatus) (message : String) : FileRun :=
  { report := { report with status, message := some message } }

/-- Why a repaired file has not been written. -/
structure WriteFailure where
  status : FileStatus
  message : String
deriving DecidableEq, Repr

/-- A file whose text has been repaired. -/
structure Change where
  /-- The file, relative to the root of the repository. -/
  filePath : String
  /-- The file as it is read and written. -/
  path : String
  /-- The text that was read. -/
  source : String
  output : String
deriving DecidableEq, Repr

namespace Change

variable (c : Change)

/-- Writes the repaired text. `backup` is the copy that has been made. -/
def write (backup : Option String) : FileProgram (Except WriteFailure (Option String)) :=
  .write c.path c.output fun
    | .error cause => .done (.error ⟨.writeFailed, cause⟩)
    | .ok () => .done (.ok backup)

/-- Copies the file if copies are wanted, and writes the repaired text. -/
def copyAndWrite (s : Settings) : FileProgram (Except WriteFailure (Option String)) :=
  if s.backupEnabled then
    .write (backupPath c.path s.backupSuffix) c.source fun
      | .error cause => .done (.error ⟨.writeFailed, "backup: " ++ cause⟩)
      | .ok () => c.write (some (backupPath c.filePath s.backupSuffix))
  else c.write none

/-- Writes the repaired text unless the file has changed since it was read. -/
def writeGuarded (s : Settings) : FileProgram (Except WriteFailure (Option String)) :=
  .read c.path fun
    | .error cause => .done (.error ⟨.readFailed, cause⟩)
    | .ok current =>
      if Digest.Sha256.hexOfText current ≠ Digest.Sha256.hexOfText c.source then
        .done (.error ⟨.preconditionFailed, "file changed since it was read"⟩)
      else c.copyAndWrite s

/-- What is reported of a file whose text has been repaired. -/
def finish (report : FileReport) : Except WriteFailure (Option String) → FileRun
  | .error failure => failed report failure.status failure.message
  | .ok backupPath =>
    { report := { report with status := .changed, backupPath }
      patch := Diff.patch c.filePath c.source c.output }

end Change

/-- Goes on with the text of a file. -/
def ofText (s : Settings) (plan : FixPlan) (path source : String) : FileProgram FileRun :=
  let report : FileReport :=
    { path := plan.filePath, sha256Before := some (Digest.Sha256.hexOfText source) }
  match repair plan.filePath source plan s.repairOptions with
  | .error e => .done (failed report .parseFailed e.message)
  | .ok repaired =>
    let report := { report with fixes := repaired.outcomes }
    if !repaired.changed then .done { report }
    else
      let change : Change :=
        { filePath := plan.filePath, path, source, output := repaired.output }
      let report :=
        { report with sha256After := some (Digest.Sha256.hexOfText repaired.output) }
      if s.dryRun then .done (change.finish report (.ok none))
      else (change.writeGuarded s).map (change.finish report)

/-- Repairs the file of a plan. -/
def ofPlan (s : Settings) (plan : FixPlan) : FileProgram FileRun :=
  let path := Path.join s.intake.repoRoot plan.filePath
  .read path fun
    | .error cause => .done (failed { path := plan.filePath } .readFailed cause)
    | .ok source => ofText s plan path source

/-- Repairs the files of plans, one after another. -/
def ofPlans (s : Settings) : List FixPlan → FileProgram (List FileRun)
  | [] => .done []
  | plan :: plans => (ofPlan s plan).bind fun first => (ofPlans s plans).map (first :: ·)

end FileRun

end BindingRepair
