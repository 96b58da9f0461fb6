/-
# Settings files

What a settings file may set, section by section. Unknown sections and keys are refused, so that no
misspelt key goes unnoticed.
-/

import BindingRepair.Toml.Reader

namespace BindingRepair

namespace Config

/-- Which files are repaired, and how. -/
structure RunSection where
  sourceRoot : Option String := none
  extensions : Option (List String) := none
  exclude : List String := []
  jobs : Option Nat := none
  maxSuffixAttempts : Option Nat := none
  reservedPrefix : Option String := none
  backup : Option Bool := none
  backupSuffix : Option String := none
deriving DecidableEq, Repr

/-- How state is declared. -/
structure StateSection where
  module : Option String := none
  primitive : Option String := none
  setterPrefix : Option String := none
deriving DecidableEq, Repr

end Config

structure Config where
  run : Config.RunSection := {}
  /-- Names and the modules that export them. -/
  capabilities : List (String × String) := []
  state : Config.StateSection := {}
  iconModule : Option String := none
  /-- Names that the runtime provides. -/
  globals : List String := []
deriving DecidableEq, Repr

namespace Config

open Toml

/-- The values of a section with the given keys: of a table without other keys, or of an array that
lists them in the order of the keys. -/
def fieldsOf? (keys : List String) : Value → Option Entries
  | .table entries => if entries.all fun (key, _) => keys.contains key then some entries else none
  | .array values => some (keys.zip values)
  | _ => none

/-- The value of a key, if there is one; it must decode. -/
def field {α : Type} (entries : Entries) (key : String) (decode : Value → Option α) :
    Option (Option α) :=
  match entries.lookup key with
  | none => some none
  | some value => (decode value).map some

namespace RunSection

def keys : List String :=
  ["source_root", "extensions", "exclude", "jobs", "max_suffix_attempts", "reserved_prefix", "backup",
    "backup_suffix"]

def ofToml? (v : Value) : Option RunSection := do
  let entries ← fieldsOf? keys v
  return {
    sourceRoot := ← field entries "source_root" Value.string?
    extensions := ← field entries "extensions" Value.strings?
    exclude := (← field entries "exclude" Value.strings?).getD []
    jobs := ← field entries "jobs" (Value.natural? UInt64.size)
    maxSuffixAttempts := ← field entries "max_suffix_attempts" (Value.natural? UInt32.size)
    reservedPrefix := ← field entries "reserved_prefix" Value.string?
    backup := ← field entries "backup" Value.boolean?
    backupSuffix := ← field entries "backup_suffix" Value.string? }

end RunSection

def StateSection.ofToml? (v : Value) : Option StateSection := do
  let entries ← fieldsOf? ["module", "primitive", "setter_prefix"] v
  return {
    module := ← field entries "module" Value.string?
    primitive := ← field entries "primitive" Value.string?
    setterPrefix := ← field entries "setter_prefix" Value.string? }

/-- The module that the section on icons sets. -/
def iconModuleOf? (v : Value) : Option (Option String) := do
  field (← fieldsOf? ["module"] v) "module" Value.string?

/-- The names that the section on globals lists. -/
def globalsOf? (v : Value) : Option (List String) := do
  return (← field (← fieldsOf? ["names"] v) "names" Value.strings?).getD []

/-- The settings of a document. -/
def ofEntries? (document : Entries) : Option Config := do
  let sections ← fieldsOf? ["run", "capabilities", "state", "icons", "globals"] (.table document)
  return {
    run := (← field sections "run" RunSection.ofToml?).getD {}
    capabilities := (← field sections "capabilities" Value.stringTable?).getD []
    state := (← field sections "state" StateSection.ofToml?).getD {}
    iconModule := (← field sections "icons" iconModuleOf?).join
    globals := (← field sections "globals" globalsOf?).getD [] }

/-- The settings of a text; none if it is no document or sets what cannot be set. -/
def parse? (text : String) : Option Config := do
  ofEntries? (← Toml.parse? text)

/-- The name of the settings file in the root of a repository. -/
def fileName : String := "jsmend.toml"

end Config

end BindingRepair
