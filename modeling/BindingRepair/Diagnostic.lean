/-
# Diagnostics

What an analyzer finds in a file: a binding that is never used, or a name that is never declared.
-/

import BindingRepair.Json.Basic
import BindingRepair.Text.Lines
import BindingRepair.Unicode.Blank

namespace BindingRepair

open Text

/-- The two families of findings that can be repaired. -/
inductive RuleKind
  | unusedBinding
  | undeclaredReference
deriving DecidableEq, Repr

namespace RuleKind

/-- The kind of the rule with the given identifier; none if its findings cannot be repaired. -/
def ofRuleId? (id : String) : Option RuleKind :=
  match Unicode.trim id with
  | "no-unused-vars" | "@typescript-eslint/no-unused-vars" | "unused-imports/no-unused-vars"
  | "UnusedBinding" | "unused_binding" => some unusedBinding
  | "no-undef" | "UndeclaredReference" | "undeclared_reference" => some undeclaredReference
  | _ => none

def label : RuleKind → String
  | unusedBinding => "unused_binding"
  | undeclaredReference => "undeclared_reference"

end RuleKind

/-- How serious a finding is. Only those that must be fixed are repaired. -/
inductive Severity
  | info
  | warn
  | mustFix
deriving DecidableEq, Repr

namespace Severity

/-- The severity of a finding that does not state its own. -/
def unstated : Severity :=
  info

/-- The severity of a numeric level. -/
def ofLevel (level : Int) : Severity :=
  if level = 2 then mustFix else if level = 1 then warn else info

/-- The severity of a word, in letters of either case. -/
def ofLabel (label : String) : Severity :=
  match (Unicode.trim label).map Char.toLower with
  | "error" | "must_fix" | "mustfix" | "must-fix" | "2" => mustFix
  | "warn" | "warning" | "1" => warn
  | _ => info

def label : Severity → String
  | info => "info"
  | warn => "warn"
  | mustFix => "must_fix"

end Severity

/-- The place of a finding that an analyzer reports at a line and a column, both counted from 1. -/
def Text.Position.ofReported (line column : Nat) : Position :=
  ⟨line, column - 1⟩

/-- Line and column with a colon between. -/
def Text.Position.render (p : Position) : String :=
  toString p.line ++ ":" ++ toString p.column

structure Diagnostic where
  /-- The file, relative to the root of the repository. -/
  filePath : String
  ruleKind : RuleKind
  symbolName : String
  /-- Line and column, both counted from 1. -/
  line : Nat
  column : Nat
  severity : Severity
  message : String
deriving DecidableEq, Repr

namespace Diagnostic

/-- The place of the finding in the file. -/
def position (d : Diagnostic) : Position :=
  Position.ofReported d.line d.column

def toJson (d : Diagnostic) : Json :=
  .ofFields [
    ("file_path", some (.string d.filePath)),
    ("rule_kind", some (.string d.ruleKind.label)),
    ("symbol_name", some (.string d.symbolName)),
    ("line", some (.nat d.line)),
    ("column", some (.nat d.column)),
    ("severity", some (.string d.severity.label)),
    ("message", if d.message.isEmpty then none else some (.string d.message))]

end Diagnostic

end BindingRepair
