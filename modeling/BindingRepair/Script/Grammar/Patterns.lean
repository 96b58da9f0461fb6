/-
# Binding patterns

The names that a declaration or parameter introduces, alone or within array and object patterns.
-/

import BindingRepair.Script.Grammar.Types

namespace BindingRepair.Script.Grammar

/-- A default value, if there is one. -/
def defaultValue (rules : Rules) : Parser Unit := do
  if ← eat "=" then initializer rules

/-- Repeats an item with commas between up to a closing bracket. -/
def commaSeparated (closing : String) (item : Parser Unit) : Parser Unit := do
  repeatWhile do
    if ← isAt closing then return false
    item
    unless ← isAt closing do expect ","
    return true
  expect closing

def arrayPattern (rules : Rules) (kind : BindingKind) : Parser Unit := do
  expect "["
  repeatWhile do
    if ← isAt "]" then return false
    if ← eat "," then return true
    if ← eat "..." then rules (.target kind)
    else
      rules (.target kind)
      defaultValue rules
    unless ← isAt "]" do expect ","
    return true
  expect "]"

/-- One property of an object pattern. A name without a colon is key and binding at once. -/
def propertyPattern (rules : Rules) (kind : BindingKind) : Parser Unit := do
  if ← eat "..." then rules (.target kind)
  else
    if (← isAtBindingName) && !(← peekIs ":") then
      let _ ← bindCurrent { kind, shorthand := true }
    else
      propertyKey rules
      expect ":"
      rules (.target kind)
    defaultValue rules

def objectPattern (rules : Rules) (kind : BindingKind) : Parser Unit := do
  expect "\x7b"
  commaSeparated "\x7d" (propertyPattern rules kind)

/-- A name or pattern, whose names are bindings of the given kind. -/
def bindingTarget (rules : Rules) (kind : BindingKind) : Parser Unit := do
  if ← isAtBindingName then
    let _ ← bindName kind
  else if ← isAt "[" then arrayPattern rules kind
  else if ← isAt "\x7b" then objectPattern rules kind
  else expected "binding"

end BindingRepair.Script.Grammar
