/-
# TOML documents

A document is a list of statements: headers, which open a table, and entries of the table that is open.
Keys of several parts reach into tables inside. No table may be defined twice, and no entry may be
given twice.
-/

import BindingRepair.Toml.Value

namespace BindingRepair.Toml

/-- How a table has come into being. -/
inductive TableOrigin
  /-- By a header of its own. -/
  | header
  /-- By the header of a table inside. -/
  | headerInside
  /-- By the key of an entry. -/
  | key
deriving DecidableEq, Repr

/-- What a key stands for while the document is read. -/
inductive Item
  | value (value : Value)
  | table (origin : TableOrigin) (entries : List (String × Item))
  /-- The tables of an array, the last first. -/
  | tables (items : List (List (String × Item)))

/-- Keys with what they stand for. -/
abbrev Items := List (String × Item)

inductive Statement
  | header (path : List String)
  /-- The header of one more table of an array. -/
  | arrayHeader (path : List String)
  | entry (path : List String) (key : String) (value : Value)

namespace Items

/-- The items with another one for a key. -/
def set (items : Items) (key : String) (item : Item) : Items :=
  items.map fun (k, i) => if k = key then (k, item) else (k, i)

/-- Changes the table that a path leads to, which `change` refuses or not. Tables on the way are made
where there are none; `byKey` tells whether the path is that of an entry, which must not reach into a
table with a header. -/
def modifyAt (byKey : Bool) (change : TableOrigin → Items → Option Items) :
    (path : List String) → TableOrigin → Items → Option Items
  | [], origin, items => change origin items
  | key :: path, _, items =>
    match items.lookup key with
    | none => do
      let origin : TableOrigin := if byKey then .key else .headerInside
      let inside ← modifyAt byKey change path origin []
      return items ++ [(key, .table origin inside)]
    | some (.table origin inside) =>
      if byKey && origin = .header then none
      else do return items.set key (.table origin (← modifyAt byKey change path origin inside))
    | some (.tables (last :: others)) => do
      return items.set key (.tables ((← modifyAt byKey change path .header last) :: others))
    | some (.tables []) | some (.value _) => none

/-- Adds an entry to the table that its path leads to, which only its keys may have brought about. -/
def addEntry (path : List String) (key : String) (value : Value) (origin : TableOrigin)
    (items : Items) : Option Items :=
  modifyAt true (fun origin items =>
    if !path.isEmpty && origin ≠ .key then none
    else if (items.lookup key).isSome then none
    else some (items ++ [(key, .value value)])) path origin items

/-- Opens the table of a header. -/
def openTable (key : String) (items : Items) : Option Items :=
  match items.lookup key with
  | none => some (items ++ [(key, .table .header [])])
  | some (.table .headerInside inside) => some (items.set key (.table .header inside))
  | some _ => none

/-- Opens one more table of an array. -/
def openNextTable (key : String) (items : Items) : Option Items :=
  match items.lookup key with
  | none => some (items ++ [(key, .tables [[]])])
  | some (.tables others) => some (items.set key (.tables ([] :: others)))
  | some _ => none

/-- Carries out a statement while the table at `current` is open. -/
def carryOut (items : Items) (current : List String) : Statement → Option (Items × List String)
  | .header path => do
    let key ← path.getLast?
    return (← modifyAt false (fun _ => openTable key) path.dropLast .header items, path)
  | .arrayHeader path => do
    let key ← path.getLast?
    return (← modifyAt false (fun _ => openNextTable key) path.dropLast .header items, path)
  | .entry path key value => do
    return (← modifyAt false (addEntry path key value) current .header items, current)

end Items

mutual

/-- The value of an item. -/
def Item.toValue : Item → Value
  | .value v => v
  | .table _ items => .table (entriesOf items)
  | .tables tables => .array (valuesOf tables).reverse

/-- The values of items. -/
def entriesOf : List (String × Item) → Entries
  | [] => []
  | (key, item) :: rest => (key, item.toValue) :: entriesOf rest

/-- The values of tables. -/
def valuesOf : List (List (String × Item)) → List Value
  | [] => []
  | table :: rest => .table (entriesOf table) :: valuesOf rest

end

/-- The table that statements make up; none if they contradict each other. -/
def ofStatements? (statements : List Statement) : Option Entries := do
  let (items, _) ← statements.foldlM (fun (items, current) s => Items.carryOut items current s)
    (([] : Items), [])
  return entriesOf items

end BindingRepair.Toml
