/-
# TOML values

The values of a settings file, and what they decode to. No setting is a moment or a number other than
an integer.
-/

import BindingRepair.Toml.Moment

namespace BindingRepair.Toml

inductive Value
  | string (value : String)
  | integer (value : Int)
  /-- Any other number, as written. -/
  | real (literal : String)
  | boolean (value : Bool)
  | moment (value : Moment)
  | array (items : List Value)
  | table (entries : List (String × Value))
deriving Inhabited

/-- Keys with their values. -/
abbrev Entries := List (String × Value)

namespace Value

def string? : Value → Option String
  | string s => some s
  | _ => none

def boolean? : Value → Option Bool
  | boolean b => some b
  | _ => none

/-- An array of strings. -/
def strings? : Value → Option (List String)
  | array items => items.mapM string?
  | _ => none

/-- A natural number below `bound`. -/
def natural? (bound : Nat) : Value → Option Nat
  | integer n => if 0 ≤ n ∧ n < bound then some n.toNat else none
  | _ => none

/-- The key under which a moment is found where a table is asked for. -/
def momentKey : String := "$__toml_private_datetime"

/-- The entries of a table. A moment counts as a table with its text as the only entry. -/
def table? : Value → Option Entries
  | table entries => some entries
  | moment m => some [(momentKey, string m.render)]
  | _ => none

/-- A table of strings. -/
def stringTable? (v : Value) : Option (List (String × String)) := do
  (← v.table?).mapM fun (key, value) => value.string?.map (key, ·)

end Value

end BindingRepair.Toml
