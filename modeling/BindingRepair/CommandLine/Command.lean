/-
# Commands

What a command line asks for: to repair files, to show the plans of a repair, or to tell about the
program.
-/

import BindingRepair.CommandLine.Options
import BindingRepair.Settings
import BindingRepair.Text.Digits

namespace BindingRepair.CommandLine

/-- What both commands are told. -/
structure CommonArguments where
  /-- The report of the analyzer. -/
  report : String
  repoRoot : String
  sourceRoot : Option String
  extensions : List String
  exclude : List String
  /-- The settings file, if not the one in the root of the repository. -/
  config : Option String
deriving DecidableEq, Repr

structure FixArguments where
  common : CommonArguments
  dryRun : Bool
  jobs : Option Nat
  backup : Bool
  reportOut : Option String
  summaryOut : Option String
  patchOut : Option String
deriving DecidableEq, Repr

/-- How plans are written. -/
inductive PlanFormat
  | json
  | markdown
deriving DecidableEq, Repr

/-- The format with a name. -/
def PlanFormat.ofName? : String → Option PlanFormat
  | "json" => some json
  | "md" => some markdown
  | _ => none

structure PlanArguments where
  common : CommonArguments
  format : PlanFormat
  /-- Where the plans go, if not to the standard output. -/
  out : Option String
deriving DecidableEq, Repr

inductive Command
  | help
  | version
  | fix (arguments : FixArguments)
  | plan (arguments : PlanArguments)
deriving DecidableEq, Repr

/-- The number that a value stands for: decimal digits, perhaps behind a plus sign, of at most 64
bits. -/
def count? (value : String) : Option Nat := do
  let digits := match value.toList with
    | '+' :: cs => cs
    | cs => cs
  let n ← Text.numberInBase? 10 digits
  if n < UInt64.size then some n else none

def commonSpecs : List OptionSpec :=
  [{ name := "report", kind := .single }, { name := "repo-root", kind := .single },
    { name := "source-root", kind := .single }, { name := "ext", kind := .repeated },
    { name := "exclude", kind := .repeated }, { name := "config", kind := .single }]

def fixSpecs : List OptionSpec :=
  commonSpecs ++
    [{ name := "dry-run", kind := .flag },
      { name := "jobs", kind := .single, accepts := fun value => (count? value).isSome },
      { name := "backup", kind := .flag }, { name := "report-json", kind := .single },
      { name := "summary-md", kind := .single }, { name := "patch", kind := .single }]

def planSpecs : List OptionSpec :=
  commonSpecs ++
    [{ name := "format", kind := .single,
       accepts := fun value => (PlanFormat.ofName? value).isSome },
      { name := "out", kind := .single }]

namespace Options

variable (o : Options)

/-- What the options tell both commands. -/
def common : Except UsageError CommonArguments := do
  let some report := o.lookup "report" | throw (.missingOption "report")
  return {
    report
    repoRoot := (o.lookup "repo-root").getD "."
    sourceRoot := o.lookup "source-root"
    extensions := o.values "ext"
    exclude := o.values "exclude"
    config := o.lookup "config" }

/-- How many files are repaired at a time. The environment decides if no option does. -/
def jobs (environment : Option String) : Except UsageError (Option Nat) :=
  match o.lookup "jobs" <|> environment with
  | none => .ok none
  | some value =>
    match count? value with
    | some n => .ok (some n)
    | none => .error (.invalidValue "jobs" value)

def toFix (environment : Option String) : Except UsageError FixArguments := do
  return {
    jobs := ← o.jobs environment
    common := ← o.common
    dryRun := o.has "dry-run"
    backup := o.has "backup"
    reportOut := o.lookup "report-json"
    summaryOut := o.lookup "summary-md"
    patchOut := o.lookup "patch" }

def toPlan : Except UsageError PlanArguments := do
  return {
    common := ← o.common
    format := ((o.lookup "format").bind PlanFormat.ofName?).getD .json
    out := o.lookup "out" }

end Options

/-- The command of some options, unless their reading ended early. -/
def commandOf (options : Except Stop Options) (make : Options → Except UsageError Command) :
    Except UsageError Command :=
  match options with
  | .ok o => make o
  | .error .help => .ok .help
  | .error (.usage e) => .error e

/-- The command of a command line; `jobs` is what the environment says about the number of jobs. -/
def Command.ofWords (jobs : Option String) : List String → Except UsageError Command
  | [] => .error .missingCommand
  | "fix" :: words => commandOf (readOptions fixSpecs [] words) fun o => .fix <$> o.toFix jobs
  | "plan" :: words => commandOf (readOptions planSpecs [] words) fun o => .plan <$> o.toPlan
  | "help" :: words =>
    match words with
    | [] | ["fix"] | ["plan"] | ["help"] => .ok .help
    | word :: _ => .error (.unknownCommand word)
  | word :: _ =>
    match Word.ofString word with
    | .option "version" none | .letter 'V' => .ok .version
    | .option "help" none | .letter 'h' => .ok .help
    | .plain => .error (.unknownCommand word)
    | _ => .error (.unexpectedArgument word)

/-- What the command line sets. -/
def FixArguments.overrides (a : FixArguments) : Overrides where
  sourceRoot := a.common.sourceRoot
  extensions := a.common.extensions
  exclude := a.common.exclude
  jobs := a.jobs
  backup := a.backup
  dryRun := a.dryRun
  reportOut := a.reportOut
  summaryOut := a.summaryOut
  patchOut := a.patchOut

/-- What the command line sets. -/
def PlanArguments.overrides (a : PlanArguments) : Overrides where
  sourceRoot := a.common.sourceRoot
  extensions := a.common.extensions
  exclude := a.common.exclude

end BindingRepair.CommandLine
