/-
# Moments in TOML

Dates, times of day, and dates with times of day, with or without a zone. Seconds may be left out.
-/

import BindingRepair.Calendar

namespace BindingRepair.Toml

open Text

/-- Where a time of day is told. -/
inductive Zone
  | universal
  /-- Some minutes ahead of universal time. -/
  | ahead (minutes : Int)
deriving DecidableEq, Repr

inductive Moment
  | date (date : Date)
  | time (time : TimeOfDay)
  | both (date : Date) (time : TimeOfDay) (zone : Option Zone)
deriving DecidableEq, Repr

namespace Zone

def render : Zone → String
  | universal => "Z"
  | ahead minutes =>
    (if minutes < 0 then "-" else "+") ++ padded 2 (minutes.natAbs / 60) ++ ":" ++
      padded 2 (minutes.natAbs % 60)

end Zone

namespace Moment

/-! ### Writing -/

def dateText (d : Date) : String :=
  padded 4 d.year.toNat ++ d.monthAndDay

/-- A time with all digits of its fraction up to the last that is not zero. -/
def timeText (t : TimeOfDay) : String :=
  t.clock ++
    if t.nanosecond = 0 then ""
    else "." ++ String.ofList
      ((padded 9 t.nanosecond).toList.reverse.dropWhile (· == '0')).reverse

def render : Moment → String
  | date d => dateText d
  | time t => timeText t
  | both d t zone => dateText d ++ "T" ++ timeText t ++ (zone.map Zone.render).getD ""

/-! ### Reading -/

def readDate? : List Char → Option (Date × List Char)
  | a :: b :: c :: d :: '-' :: e :: f :: '-' :: g :: h :: cs =>
    let date : Date :=
      { year := decimalValue [a, b, c, d], month := decimalValue [e, f],
        day := decimalValue [g, h] }
    if [a, b, c, d, e, f, g, h].all Char.isDigit && date.isValid then some (date, cs) else none
  | _ => none

/-- Two numbers of two digits each with a colon between them. -/
def readPair? : List Char → Option ((Nat × Nat) × List Char)
  | a :: b :: ':' :: c :: d :: cs =>
    if [a, b, c, d].all Char.isDigit then
      some ((decimalValue [a, b], decimalValue [c, d]), cs)
    else none
  | _ => none

/-- The second and the nanosecond of a time whose minute is read. -/
def readSeconds? : List Char → Option ((Nat × Nat) × List Char)
  | ':' :: a :: b :: '.' :: cs =>
    match cs.span Char.isDigit with
    | ([], _) => none
    | (digits, rest) =>
      if a.isDigit && b.isDigit then
        some ((decimalValue [a, b], TimeOfDay.nanosecondsOf digits), rest)
      else none
  | ':' :: a :: b :: cs =>
    if a.isDigit && b.isDigit then some ((decimalValue [a, b], 0), cs) else none
  | cs => some ((0, 0), cs)

def readTime? (cs : List Char) : Option (TimeOfDay × List Char) := do
  let ((hour, minute), cs) ← readPair? cs
  let ((second, nanosecond), cs) ← readSeconds? cs
  let time : TimeOfDay := { hour, minute, second, nanosecond }
  if time.isValid then return (time, cs) else none

/-- How many minutes an offset of hours and minutes comes to. -/
def offset? (cs : List Char) : Option Nat :=
  match readPair? cs with
  | some ((hours, minutes), []) =>
    if hours < 24 && minutes < 60 then some (hours * 60 + minutes) else none
  | _ => none

/-- The zone behind a time, if there is one. -/
def zone? : List Char → Option (Option Zone)
  | [] => some none
  | ['Z'] | ['z'] => some (some .universal)
  | '+' :: cs => (offset? cs).map fun (n : Nat) => some (.ahead n)
  | '-' :: cs => (offset? cs).map fun (n : Nat) => some (.ahead (-(n : Int)))
  | _ => none

/-- The moment that a word tells. -/
def ofWord? (word : List Char) : Option Moment :=
  match readDate? word with
  | some (d, []) => some (date d)
  | some (d, c :: cs) => do
    if c = 'T' || c = 't' || c = ' ' then
      let (t, cs) ← readTime? cs
      return both d t (← zone? cs)
    else none
  | none =>
    match readTime? word with
    | some (t, []) => some (time t)
    | _ => none

end Moment

end BindingRepair.Toml
