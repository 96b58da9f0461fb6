/-
# Decoding documents

A document is an object whose fields are decoded one by one. Unknown fields do not matter. A field
that may be missing is missing or null; a field with a default value may be missing, but not null. A
document may also be written without the names of its fields, as the array of their values.
-/

import BindingRepair.Json.Basic

namespace BindingRepair.Json

variable {α : Type}

/-- The object of a document whose fields have the given names. An array lists their values in the
order of the names; the last ones may be missing. -/
def document? (names : List String) : Json → Option Json
  | object fields => some (object fields)
  | array values => if values.length ≤ names.length then some (object (names.zip values)) else none
  | _ => none

/-- A field that must be there. -/
def required (j : Json) (name : String) (decode : Json → Option α) : Option α := do
  decode (← j.field? name)

/-- A field that may be missing or null. -/
def optional (j : Json) (name : String) (decode : Json → Option α) : Option (Option α) :=
  match j.field? name with
  | none | some null => some none
  | some value => (decode value).map some

/-- A field that has a value of its own if it is missing. -/
def withDefault (j : Json) (name : String) (value : α) (decode : Json → Option α) : Option α :=
  match j.field? name with
  | none => some value
  | some value => decode value

/-- An array whose items all decode. -/
def listOf (decode : Json → Option α) (j : Json) : Option (List α) := do
  (← j.array?).mapM decode

/-- An array of strings. -/
def strings? (j : Json) : Option (List String) :=
  j.listOf string?

/-- A label: a string, or an object in which it is the name of the only field, which is null. -/
def label? : Json → Option String
  | string s => some s
  | object [(name, null)] => some name
  | _ => none

/-- The one of the given values that has a label. -/
def labelled (values : List α) (label : α → String) (j : Json) : Option α := do
  let s ← j.label?
  values.find? fun v => label v = s

end BindingRepair.Json
