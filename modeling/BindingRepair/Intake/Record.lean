/-
# Records

The entries of an analyzer's report, before they are known to be of use. Analyzers name their fields
differently and leave some out; a field of the wrong type counts as left out.
-/

import BindingRepair.Diagnostic
import BindingRepair.QuotedName

namespace BindingRepair

structure ReportRecord where
  filePath : Option String := none
  rule : Option String := none
  message : Option String := none
  symbol : Option String := none
  line : Option Nat := none
  column : Option Nat := none
  severity : Option Severity := none
deriving DecidableEq, Repr

/-- Why a record is of no use. -/
inductive Rejection
  | malformed
  | ignoredRule
  | belowSeverity
deriving DecidableEq, Repr

/-- The first field with one of the names, unless it is null. -/
def Json.firstField? (j : Json) (names : List String) : Option Json := do
  let value ← names.findSome? j.field?
  if value.isNull then none else some value

/-- The names of the field that holds the path of a file. -/
def pathFields : List String :=
  ["filePath", "file_path", "path"]

/-- The severity that a field states: a level or a word. -/
def Severity.ofJson? (j : Json) : Option Severity :=
  match j with
  | .string label => some (ofLabel label)
  | _ => j.signed?.map ofLevel

namespace ReportRecord

def ofJson (j : Json) : ReportRecord where
  filePath := (j.firstField? pathFields).bind (·.string?)
  rule := (j.firstField? ["ruleKind", "rule_kind", "ruleId", "rule_id"]).bind (·.string?)
  message := (j.firstField? ["message"]).bind (·.string?)
  symbol := (j.firstField? ["symbolName", "symbol_name"]).bind (·.string?)
  line := (j.firstField? ["line"]).bind (·.natural?)
  column := (j.firstField? ["column"]).bind (·.natural?)
  severity := (j.firstField? ["severity"]).bind Severity.ofJson?

/-- A number of at most 32 bits. -/
def small (n : Nat) : Bool :=
  n < UInt32.size

/-- The name that the record is about: the one that it states, or else the one that its message puts
between quotes. -/
def symbolName? (r : ReportRecord) : Option String :=
  (r.symbol.filter isIdentifier <|> quotedName? (r.message.getD "")).filter isIdentifier

/-- The finding that the record describes, if it must be fixed and can be. -/
def toDiagnostic (r : ReportRecord) : Except Rejection Diagnostic := do
  let some filePath := r.filePath.filter fun p => !(Unicode.trim p).isEmpty | throw .malformed
  let some ruleKind := r.rule.bind RuleKind.ofRuleId? | throw .ignoredRule
  let severity := r.severity.getD .unstated
  if severity ≠ .mustFix then throw .belowSeverity
  let some line := r.line.filter fun l => 0 < l && small l | throw .malformed
  let some column := r.column.filter small | throw .malformed
  let some symbolName := r.symbolName? | throw .malformed
  return { filePath, ruleKind, symbolName, line, column, severity, message := r.message.getD "" }

/-- The records of an entry that lists the messages for one file. A record without a path of its own
has the path of the entry. -/
def ofMessages (entry : Json) (messages : List Json) : List ReportRecord :=
  let filePath := (entry.firstField? pathFields).bind (·.string?)
  messages.map fun message =>
    let record := ofJson message
    { record with filePath := record.filePath <|> filePath }

/-- The records of an entry of a report. -/
def ofEntry (entry : Json) : List ReportRecord :=
  match (entry.field? "messages").bind (·.array?) with
  | some messages => ofMessages entry messages
  | none => [ofJson entry]

/-- The entries of a report: an array, or an object that holds one. -/
def reportEntries? (report : Json) : Option (List Json) :=
  match report with
  | .array entries => some entries
  | .object _ => do (← report.field? "diagnostics" <|> report.field? "results").array?
  | _ => none

/-- The records of a report, in order; none if it is no report. -/
def ofReport? (report : Json) : Option (List ReportRecord) :=
  (reportEntries? report).map (·.flatMap ofEntry)

end ReportRecord

end BindingRepair
