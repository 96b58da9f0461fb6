/-
# Intervals of code points

A property of characters is given by the intervals of code points that have it. ASCII is left out of
the tables of this folder: there each property is a test of its own.
-/

namespace BindingRepair.Unicode

/-- The code points from `first` to `last`, both included. -/
structure Interval where
  first : Nat
  last : Nat

namespace Interval

/-- Whether the code point `n` lies in the interval. -/
def contains (i : Interval) (n : Nat) : Bool :=
  i.first ≤ n && n ≤ i.last

end Interval

/-- Whether a character lies in one of the intervals. -/
def isIn (c : Char) (table : List Interval) : Bool :=
  table.any (·.contains c.toNat)

end BindingRepair.Unicode
