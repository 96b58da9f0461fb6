/-
# JSON values

A number is an integer if it is written without point and exponent and fits into 64 bits, signed or
unsigned; every other number is kept as it is written. An object keeps its fields in order.
-/

namespace BindingRepair

inductive Json
  | null
  | bool (value : Bool)
  | integer (value : Int)
  /-- Any other number, as written. -/
  | real (literal : String)
  | string (value : String)
  | array (items : List Json)
  | object (fields : List (String × Json))
deriving Inhabited

namespace Json

/-- The integers that are kept as such: those of 64 bits, signed or unsigned. -/
def isWide (n : Int) : Bool :=
  -0x8000000000000000 ≤ n && n < UInt64.size

def string? : Json → Option String
  | string s => some s
  | _ => none

def bool? : Json → Option Bool
  | bool b => some b
  | _ => none

def array? : Json → Option (List Json)
  | array items => some items
  | _ => none

def object? : Json → Option (List (String × Json))
  | object fields => some fields
  | _ => none

/-- An integer that is a natural number of at most 64 bits. -/
def natural? : Json → Option Nat
  | integer n => if 0 ≤ n ∧ n < UInt64.size then some n.toNat else none
  | _ => none

/-- An integer of 64 bits with a sign. -/
def signed? : Json → Option Int
  | integer n => if -0x8000000000000000 ≤ n ∧ n < 0x8000000000000000 then some n else none
  | _ => none

/-- A natural number of at most 32 bits. -/
def word? (j : Json) : Option Nat := do
  let n ← j.natural?
  if n < UInt32.size then some n else none

/-- The field of an object with the given name. -/
def field? (j : Json) (name : String) : Option Json := do
  let fields ← j.object?
  fields.lookup name

def isNull : Json → Bool
  | null => true
  | _ => false

/-- The object of the given fields, without those that are absent. -/
def ofFields (fields : List (String × Option Json)) : Json :=
  object (fields.filterMap fun (name, value) => value.map (name, ·))

def nat (n : Nat) : Json :=
  integer n

/-- A value, or null in its absence. -/
def orNull (value : Option Json) : Json :=
  value.getD null

def strings (items : List String) : Json :=
  array (items.map string)

end Json

end BindingRepair
