/-
# Repair

Repairs the text of a file: reads it as a script, carries out a plan, and prints the result. Without
an applied fix the text stays as it is.
-/

import BindingRepair.Path
import BindingRepair.Repair.Progress
import BindingRepair.Script.Grammar
import BindingRepair.Script.Printer

namespace BindingRepair

open Script

/-- Why a text cannot be repaired. -/
inductive RepairError
  | parse (error : ParseError)
  | print (error : PrintError)
  | unsupportedFile (filePath : String)
deriving Repr

namespace RepairError

/-- The error in words. -/
def message : RepairError → String
  | parse error => "parse error at " ++ error.message
  | print error => "print error: " ++ error.message
  | unsupportedFile filePath => "unsupported file type: " ++ filePath

/-- Whether the text could not be read as a script. -/
def isParseFailure : RepairError → Bool
  | parse _ | unsupportedFile _ => true
  | print _ => false

end RepairError

/-- A text after its repair. -/
structure Repaired where
  output : String
  outcomes : List FixOutcome
  /-- Whether the repair changed the text. -/
  changed : Bool
deriving DecidableEq, Repr

namespace Repaired

/-- How many fixes were applied. -/
def applied (r : Repaired) : Nat :=
  r.outcomes.countP (·.status = .applied)

/-- How many fixes were dropped. -/
def dropped (r : Repaired) : Nat :=
  r.outcomes.countP (·.status = .dropped)

end Repaired

/-- The dialect of a file, by its extension. -/
def Script.Dialect.ofPath? (filePath : String) : Option Dialect := do
  Dialect.ofExtension? (← Path.extension? filePath)

/-- Carries out a plan on the text of a file. -/
def repair (filePath source : String) (plan : FixPlan) (o : RepairOptions) :
    Except RepairError Repaired := do
  let some dialect := Dialect.ofPath? filePath | throw (.unsupportedFile filePath)
  let tree ← (parse source dialect).mapError .parse
  let (outcomes, mended) := tree.carryOut plan o
  if outcomes.any (·.status = .applied) then
    let output ← mended.print.mapError .print
    return { output, outcomes, changed := output != source }
  else return { output := source, outcomes, changed := false }

end BindingRepair
