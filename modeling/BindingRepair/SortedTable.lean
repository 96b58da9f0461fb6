/-
# Sorted tables

Lists in ascending order without repetitions, used as sets, and lists of keys and values in ascending
order of the keys. Their order is what reports and plans show.
-/

namespace BindingRepair

/-- A set of names in ascending order. -/
abbrev NameSet := List String

namespace NameSet

/-- The set with one more name. -/
def insert (name : String) : NameSet → NameSet
  | [] => [name]
  | n :: ns =>
    if name = n then n :: ns
    else if name < n then name :: n :: ns
    else n :: insert name ns

/-- The set of the names of a list. -/
def ofNames (names : List String) : NameSet :=
  names.foldl (fun set name => insert name set) []

/-- The names of both sets. -/
def union (a b : NameSet) : NameSet :=
  b.foldl (fun set name => insert name set) a

end NameSet

/-- Keys with values, in ascending order of the keys. -/
abbrev SortedTable (α β : Type) := List (α × β)

namespace SortedTable

variable {α β : Type}

/-- The table with the value of a key changed, or set where there is none; `before` orders keys. -/
def alter (before : α → α → Bool) (key : α) (change : Option β → β) :
    SortedTable α β → SortedTable α β
  | [] => [(key, change none)]
  | (k, v) :: rest =>
    if before key k then (key, change none) :: (k, v) :: rest
    else if before k key then (k, v) :: alter before key change rest
    else (k, change (some v)) :: rest

/-- The table with a value for a key, in place of the one it had. -/
def insert (before : α → α → Bool) (key : α) (value : β) (table : SortedTable α β) :
    SortedTable α β :=
  table.alter before key fun _ => value

/-- The order of names. -/
def nameBefore (a b : String) : Bool :=
  a < b

end SortedTable

end BindingRepair
