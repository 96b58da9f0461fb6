/-
# Settings

All that a run depends on besides the report and the files. What the command line sets goes before
what the settings file sets, and that before the defaults.
-/

import BindingRepair.Config
import BindingRepair.Intake
import BindingRepair.Repair.Progress
import BindingRepair.Vocabulary

namespace BindingRepair

/-- What the command line sets. -/
structure Overrides where
  sourceRoot : Option String := none
  extensions : List String := []
  exclude : List String := []
  jobs : Option Nat := none
  backup : Bool := false
  dryRun : Bool := false
  reportOut : Option String := none
  summaryOut : Option String := none
  patchOut : Option String := none
deriving DecidableEq, Repr

structure Settings where
  /-- Which files may be repaired. -/
  intake : IntakeOptions := {}
  /-- Whether nothing is written. -/
  dryRun : Bool := false
  /-- How many files are repaired at a time; with zero, as many as there are processors. -/
  jobs : Nat := 0
  maxSuffixAttempts : Nat := 100
  /-- Whether files are copied before they are overwritten. -/
  backupEnabled : Bool := false
  /-- What is put behind the path of a file for the path of its copy. -/
  backupSuffix : String := ".jsmend.bak"
  /-- Where the report of the run goes. -/
  reportOut : Option String := none
  /-- Where the summary of the run goes. -/
  summaryOut : Option String := none
  /-- Where the patch of all changes goes. -/
  patchOut : Option String := none
  vocabulary : Vocabulary := {}
deriving DecidableEq, Repr

/-- An extension without dots in front, in lower case. -/
def plainExtension (extension : String) : String :=
  String.ofList ((extension.toList.dropWhile (· == '.')).map Char.toLower)

/-- The patterns of both lists, those of the second without repetitions. -/
def joinPatterns (first second : List String) : List String :=
  second.foldl (fun patterns p => if patterns.contains p then patterns else patterns ++ [p]) first

/-- The usual vocabulary with what a settings file changes in it. -/
def Config.vocabulary (c : Config) : Vocabulary :=
  let usual : Vocabulary := {}
  { capabilities := withCapabilities usual.capabilities c.capabilities
    stateModule := c.state.module.getD usual.stateModule
    statePrimitive := c.state.primitive.getD usual.statePrimitive
    setterPrefix := c.state.setterPrefix.getD usual.setterPrefix
    iconModule := c.iconModule.getD usual.iconModule
    reservedPrefix := c.run.reservedPrefix.getD usual.reservedPrefix
    globals := NameSet.ofNames c.globals }

namespace Settings

/-- The settings of a run in a repository. -/
def ofConfig (c : Config) (repoRoot : String) (o : Overrides) : Settings :=
  let usual : Settings := {}
  let extensions :=
    if o.extensions.isEmpty then c.run.extensions.getD usual.intake.extensions else o.extensions
  { intake :=
      { repoRoot
        sourceRoot := (o.sourceRoot <|> c.run.sourceRoot).getD usual.intake.sourceRoot
        extensions := extensions.map plainExtension
        exclude := joinPatterns c.run.exclude o.exclude }
    dryRun := o.dryRun
    jobs := (o.jobs <|> c.run.jobs).getD usual.jobs
    maxSuffixAttempts := c.run.maxSuffixAttempts.getD usual.maxSuffixAttempts
    backupEnabled := o.backup || c.run.backup.getD usual.backupEnabled
    backupSuffix := c.run.backupSuffix.getD usual.backupSuffix
    reportOut := o.reportOut
    summaryOut := o.summaryOut
    patchOut := o.patchOut
    vocabulary := c.vocabulary }

/-- How fixes are to be carried out. -/
def repairOptions (s : Settings) : RepairOptions where
  statePrimitive := s.vocabulary.statePrimitive
  reservedPrefix := s.vocabulary.reservedPrefix
  globals := s.vocabulary.globals
  maxSuffixAttempts := s.maxSuffixAttempts

end Settings

end BindingRepair
