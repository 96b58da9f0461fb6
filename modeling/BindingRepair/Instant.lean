/-
# Instants

Moments in universal time. They are written in the form of RFC 3339. What is read may be laid out more
freely: blanks may stand around every part, numbers may do without leading zeros, and the time may be
that of any zone.
-/

import BindingRepair.Calendar
import BindingRepair.Unicode.Blank

namespace BindingRepair

open Text Unicode

structure Instant where
  date : Date
  time : TimeOfDay
deriving DecidableEq, Repr

namespace Instant

/-! ### Writing -/

/-- A year: four digits, or a sign and at least four digits where four alone do not do. -/
def yearText (year : Int) : String :=
  if 0 ≤ year && year ≤ 9999 then padded 4 year.toNat
  else (if year < 0 then "-" else "+") ++ padded 4 year.natAbs

/-- The fraction of a second, to three, six or nine places, as few of these as give it exactly. -/
def fractionText (nanosecond : Nat) : String :=
  if nanosecond = 0 then ""
  else if nanosecond % 1000000 = 0 then "." ++ padded 3 (nanosecond / 1000000)
  else if nanosecond % 1000 = 0 then "." ++ padded 6 (nanosecond / 1000)
  else "." ++ padded 9 nanosecond

def render (i : Instant) : String :=
  yearText i.date.year ++ i.date.monthAndDay ++ "T" ++ i.time.clock ++
    fractionText i.time.nanosecond ++ "Z"

/-! ### Reading -/

/-- Whether a year is one of those that instants are told in. -/
def isYear (year : Int) : Bool :=
  -262143 ≤ year && year ≤ 262142

/-- The instant at which a zone has the given time, which is `offset` minutes ahead of universal
time, but less than a day. -/
def ofZone? (date : Date) (time : TimeOfDay) (offset : Int) : Option Instant :=
  let minutes := (time.hour * 60 + time.minute : Nat) - offset
  let date := if minutes < 0 then date.previous else if minutes < 1440 then date else date.next
  let ofDay := (minutes % 1440).toNat
  if isYear date.year then
    some { date, time := { time with hour := ofDay / 60, minute := ofDay % 60 } }
  else none

def skipBlanks (cs : List Char) : List Char :=
  cs.dropWhile isBlank

/-- What follows a character, if that comes next, perhaps behind blanks. -/
def after? (c : Char) (cs : List Char) : Option (List Char) :=
  match skipBlanks cs with
  | d :: rest => if d = c then some rest else none
  | [] => none

/-- A number of at least one and at most `most` digits, and what follows it. -/
def readDigits? (most : Nat) (cs : List Char) : Option (Nat × List Char) :=
  let digits := (cs.take most).takeWhile Char.isDigit
  if digits.isEmpty then none else some (decimalValue digits, cs.drop digits.length)

/-- A number of one or two digits, perhaps behind blanks. -/
def readPart? (cs : List Char) : Option (Nat × List Char) :=
  readDigits? 2 (skipBlanks cs)

/-- A year: up to four digits, or a sign and any number of digits. -/
def readYear? (cs : List Char) : Option (Int × List Char) :=
  match skipBlanks cs with
  | '-' :: cs => (readDigits? cs.length cs).map fun ((n : Nat), rest) => (-(n : Int), rest)
  | '+' :: cs => (readDigits? cs.length cs).map fun ((n : Nat), rest) => ((n : Int), rest)
  | cs => (readDigits? 4 cs).map fun ((n : Nat), rest) => ((n : Int), rest)

def readDate? (cs : List Char) : Option (Date × List Char) := do
  let (year, cs) ← readYear? cs
  let (month, cs) ← readPart? (← after? '-' cs)
  let (day, cs) ← readPart? (← after? '-' cs)
  let date : Date := { year, month, day }
  if isYear year && date.isValid then return (date, cs) else none

/-- The digits of a fraction and what follows it; no digits if there is no fraction. -/
def readFraction? : List Char → Option (List Char × List Char)
  | '.' :: cs =>
    match cs.span Char.isDigit with
    | ([], _) => none
    | found => some found
  | cs => some ([], cs)

def readTime? (cs : List Char) : Option (TimeOfDay × List Char) := do
  let (hour, cs) ← readPart? cs
  let (minute, cs) ← readPart? (← after? ':' cs)
  let (second, cs) ← readPart? (← after? ':' cs)
  let (digits, cs) ← readFraction? cs
  let time : TimeOfDay := { hour, minute, second, nanosecond := TimeOfDay.nanosecondsOf digits }
  if time.isValid then return (time, cs) else none

/-- How many minutes a zone is ahead, from its hours and minutes of two digits each, between which
colons and blanks may stand. -/
def readOffset? (cs : List Char) : Option (Nat × List Char) := do
  let a :: b :: cs := cs | none
  let c :: d :: rest := cs.dropWhile fun c => c == ':' || isBlank c | none
  if [a, b, c, d].all Char.isDigit then
    let hours := decimalValue [a, b]
    let minutes := decimalValue [c, d]
    if hours < 24 && minutes < 60 then return (hours * 60 + minutes, rest) else none
  else none

/-- How many minutes the zone is ahead whose name or offset comes next, perhaps behind blanks. The
offset may have a minus sign in place of a hyphen. -/
def readZone? (cs : List Char) : Option (Int × List Char) :=
  match skipBlanks cs with
  | 'Z' :: cs | 'z' :: cs => some (0, cs)
  | '+' :: cs => (readOffset? cs).map fun ((n : Nat), rest) => ((n : Int), rest)
  | '-' :: cs | '\u2212' :: cs => (readOffset? cs).map fun ((n : Nat), rest) => (-(n : Int), rest)
  | a :: b :: c :: cs => if [a, b, c].map Char.toLower = "utc".toList then some (0, cs) else none
  | _ => none

/-- The instant that a text tells. -/
def parse? (text : String) : Option Instant := do
  let (date, cs) ← readDate? text.toList
  let c :: cs := cs | none
  if c = 'T' || c = 't' || c = ' ' then
    let (time, cs) ← readTime? cs
    let (offset, cs) ← readZone? cs
    if (skipBlanks cs).isEmpty then ofZone? date time offset else none
  else none

end Instant

end BindingRepair
