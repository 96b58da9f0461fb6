/-
# The command line

Carries out commands in a file system. A command that fails says at which of its stages, and why.
-/

import BindingRepair.CommandLine.Command
import BindingRepair.FileSystem
import BindingRepair.Json.Reader
import BindingRepair.Run

namespace BindingRepair

/-- Why settings cannot be loaded. -/
inductive ConfigError
  | unreadable (path cause : String)
  /-- The file is no document, or sets what cannot be set. -/
  | malformed (path : String)
deriving DecidableEq, Repr

namespace ConfigError

/-- Which step failed. -/
def step : ConfigError → String
  | unreadable path _ => "read config file " ++ path
  | malformed path => "parse config file " ++ path

/-- The error in words. -/
def message (e : ConfigError) : String :=
  e.step ++ ": " ++ match e with
    | unreadable _ cause => cause
    | malformed _ => "invalid TOML"

end ConfigError

namespace FileSystem

variable {m : Type → Type} [Monad m] (fs : FileSystem m)

/-- The settings file in the root of a repository, if there is one. -/
def discoverConfig? (repoRoot : String) : m (Option String) := do
  let path := Path.join repoRoot Config.fileName
  return if ← fs.isFile path then some path else none

/-- The settings of a file. -/
def loadConfig (path : String) : m (Except ConfigError Config) := do
  match ← fs.readText path with
  | .error e => return .error (.unreadable path (e.readMessage path))
  | .ok text =>
    match Config.parse? text with
    | none => return .error (.malformed path)
    | some config => return .ok config

/-- The settings of the given file, or else of the one in the root of the repository, or else none. -/
def loadConfigOrDefault (repoRoot : String) (given : Option String) :
    m (Except ConfigError Config) := do
  let found ← match given with
    | some path => pure (some path)
    | none => fs.discoverConfig? repoRoot
  match found with
  | some path => fs.loadConfig path
  | none => return .ok {}

/-- Takes in a report that is read already. -/
def takeIn (o : IntakeOptions) (report : Json) : m (Except IntakeError Intake) := do
  let files ← (Intake.paths o report).filterM fun path => fs.isFile (Path.join o.repoRoot path)
  return Intake.ofReport o files.contains report

/-- Takes in the report in a file. -/
def loadReport (o : IntakeOptions) (path : String) : m (Except IntakeError Intake) := do
  match ← fs.readText path with
  | .error e => return .error (.unreadable path (e.readMessage path))
  | .ok text =>
    match Json.parse? text with
    | none => return .error (.notJson path)
    | some report => fs.takeIn o report

end FileSystem

namespace CommandLine

/-- Why a command fails. -/
inductive ToolError
  | repoRoot (path : String) (cause : FileError)
  | config (error : ConfigError)
  | report (error : IntakeError)
  /-- What a run writes besides the repaired files cannot be written. -/
  | artifacts (cause : String)
  /-- The plans cannot be written. -/
  | output (error : WriteError)
deriving DecidableEq, Repr

/-- The stage that failed, and why. -/
def ToolError.message : ToolError → String
  | repoRoot path cause => "resolve repository root " ++ path ++ ": " ++ cause.message
  | config error => "load jsmend.toml config: " ++ error.message
  | report error => "load diagnostic report: " ++ error.message
  | artifacts cause => "write run artifacts: " ++ cause
  | output (.parent directory cause) => "create " ++ directory ++ ": " ++ cause
  | output (.file path cause) => "write " ++ path ++ ": " ++ cause

/-- The program itself. -/
def tool : ToolInfo :=
  { name := "jsmend", version := some "0.1.0" }

/-- How the program is used. -/
def usage : String :=
  "Repairs unused and undeclared bindings in JavaScript and TypeScript sources from an ESLint " ++
    "report.\n\nUsage: jsmend <COMMAND>\n\nCommands:\n" ++
    "  fix   Repair the files named in the report and write the ones that change\n" ++
    "  plan  Print the per-file fix plans without reading or writing sources\n" ++
    "  help  Print this message\n\nOptions:\n" ++
    "  -h, --help     Print help\n  -V, --version  Print version\n"

section Commands

variable {m : Type → Type} [Monad m] (fs : FileSystem m)

/-- The settings of a command. -/
def settingsFor (a : CommonArguments) (o : Overrides) : ExceptT ToolError m Settings := do
  let repoRoot ← ExceptT.mk do return (← fs.resolve a.repoRoot).mapError (.repoRoot a.repoRoot)
  let config ← ExceptT.mk do
    return (← fs.loadConfigOrDefault repoRoot a.config).mapError .config
  return Settings.ofConfig config repoRoot o

/-- What the report of a command comes to. -/
def intakeFor (s : Settings) (a : CommonArguments) : ExceptT ToolError m Intake :=
  ExceptT.mk do return (← fs.loadReport s.intake a.report).mapError .report

/-- What a run comes to, in one line. -/
def outcomeLine (s : Settings) (r : RunSummary) : String :=
  (if s.dryRun then "would change " else "changed ") ++ toString r.changedFiles ++ " of " ++
    toString r.touchedFiles ++ " touched files (" ++ toString r.fixesApplied ++
    " fixes applied, " ++ toString r.fixesDropped ++ " dropped, " ++
    toString (r.parseFailures + r.ioFailures + r.panicked) ++ " failed)\n"

/-- Repairs files, and tells what came of it. `clock` tells the time. -/
def fix (clock : m (Option Instant)) (a : FixArguments) : ExceptT ToolError m String := do
  let s ← settingsFor fs a.common a.overrides
  let startedAt ← clock
  let intake ← intakeFor fs s a.common
  let run ← ExceptT.lift ((RunOutcome.ofIntake s tool { startedAt } intake).run fs.access)
  let outcome := { run with report := { run.report with endedAt := ← clock } }
  ExceptT.mk do return (← (outcome.writeArtifacts s).run fs.access).mapError .artifacts
  return (if s.dryRun && s.patchOut.isNone then outcome.patch else "") ++
    outcomeLine s outcome.report.summary

/-- Plans in a format. -/
def planText (format : PlanFormat) (doc : PlanDocument) : String :=
  match format with
  | .json => doc.toJson.pretty ++ "\n"
  | .markdown => Summary.ofPlans doc

/-- Shows the plans of a repair, or writes them to a file. -/
def plan (a : PlanArguments) : ExceptT ToolError m String := do
  let s ← settingsFor fs a.common a.overrides
  let intake ← intakeFor fs s a.common
  let text := planText a.format (PlanDocument.ofIntake s tool intake)
  match a.out with
  | none => return text
  | some path =>
    ExceptT.mk do return (← fs.write path text).mapError .output
    return ""

/-- How the program ends: its exit code, and what it prints or why it failed. -/
inductive Ending
  | success (output : String)
  | failure (error : ToolError)
  | misuse (error : UsageError)
deriving DecidableEq, Repr

/-- The exit code. -/
def Ending.exitCode : Ending → UInt32
  | success _ => 0
  | failure _ => 1
  | misuse _ => 2

def Ending.ofResult : Except ToolError String → Ending
  | .ok output => .success output
  | .error error => .failure error

/-- Carries out a command line; `jobs` is what the environment says about the number of jobs. -/
def run (clock : m (Option Instant)) (jobs : Option String) (words : List String) : m Ending := do
  match Command.ofWords jobs words with
  | .error e => return .misuse e
  | .ok .help => return .success usage
  | .ok .version => return .success "jsmend 0.1.0\n"
  | .ok (.fix a) => return .ofResult (← (fix fs clock a).run)
  | .ok (.plan a) => return .ofResult (← (plan fs a).run)

end Commands

end CommandLine

end BindingRepair
