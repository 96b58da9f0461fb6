/-
# Dates and times of day

Days of the Gregorian calendar, carried back before its beginning, and times of day to the
nanosecond. Months and days count from one.
-/

import BindingRepair.Text.Digits

namespace BindingRepair

open Text

structure Date where
  year : Int
  month : Nat
  day : Nat
deriving DecidableEq, Repr

namespace Date

/-- Whether the February of a year has a 29th day. -/
def isLeapYear (year : Int) : Bool :=
  year % 4 == 0 && (year % 100 != 0 || year % 400 == 0)

/-- The number of days of a month. -/
def monthLength (year : Int) (month : Nat) : Nat :=
  match month with
  | 2 => if isLeapYear year then 29 else 28
  | 4 | 6 | 9 | 11 => 30
  | _ => 31

/-- Whether the calendar has such a day. -/
def isValid (d : Date) : Bool :=
  1 ≤ d.month && d.month ≤ 12 && 1 ≤ d.day && d.day ≤ monthLength d.year d.month

/-- The day after. -/
def next (d : Date) : Date :=
  if d.day < monthLength d.year d.month then { d with day := d.day + 1 }
  else if d.month < 12 then { d with month := d.month + 1, day := 1 }
  else { year := d.year + 1, month := 1, day := 1 }

/-- The day before. -/
def previous (d : Date) : Date :=
  if 1 < d.day then { d with day := d.day - 1 }
  else if 1 < d.month then
    { d with month := d.month - 1, day := monthLength d.year (d.month - 1) }
  else { year := d.year - 1, month := 12, day := 31 }

/-- No day is left out between a day and the one after. -/
theorem previous_next {d : Date} (h : d.isValid = true) : d.next.previous = d := by
  obtain ⟨year, month, day⟩ := d
  simp only [isValid, Bool.and_eq_true, decide_eq_true_eq] at h
  obtain ⟨⟨⟨_, hm⟩, hd⟩, hl⟩ := h
  by_cases hday : day < monthLength year month
  · have : 1 < day + 1 := by omega
    simp [next, previous, hday, this]
  · have hlast : monthLength year month = day := by omega
    by_cases hmonth : month < 12
    · have : 1 < month + 1 := by omega
      simp [next, previous, hmonth, hlast, this]
    · obtain rfl : month = 12 := by omega
      have : day = 31 := hlast.symm
      simp [next, previous, this, monthLength]

/-- The month and the day, with two digits each, behind hyphens. -/
def monthAndDay (d : Date) : String :=
  "-" ++ padded 2 d.month ++ "-" ++ padded 2 d.day

end Date

/-- A time of day. The leap second that a minute may have is its second 60. -/
structure TimeOfDay where
  hour : Nat
  minute : Nat
  second : Nat := 0
  nanosecond : Nat := 0
deriving DecidableEq, Repr

namespace TimeOfDay

def isValid (t : TimeOfDay) : Bool :=
  t.hour < 24 && t.minute < 60 && t.second ≤ 60 && t.nanosecond < 1000000000

/-- The nanoseconds that the digits behind a point stand for; those behind the ninth do not count. -/
def nanosecondsOf (digits : List Char) : Nat :=
  decimalValue ((digits ++ List.replicate 9 '0').take 9)

/-- The time without its fraction of a second. -/
def clock (t : TimeOfDay) : String :=
  padded 2 t.hour ++ ":" ++ padded 2 t.minute ++ ":" ++ padded 2 t.second

end TimeOfDay

end BindingRepair
