/-
# Characters of different kinds

No character of an identifier is blank, ends a line or marks the order of bytes. Beyond ASCII this is a
comparison of tables of intervals.
-/

import BindingRepair.Identifier
import BindingRepair.Text.Lines
import BindingRepair.Unicode.Blank

namespace BindingRepair

open Unicode Text

namespace Unicode

/-- No interval of one table meets one of the other. -/
def areApart (first second : List Interval) : Bool :=
  first.all fun i => second.all fun j => i.last < j.first || j.last < i.first

theorem isIn_eq_false_of_areApart {first second : List Interval} (apart : areApart first second = true)
    {c : Char} (here : isIn c first = true) : isIn c second = false := by
  simp only [areApart, List.all_eq_true, Bool.or_eq_true, decide_eq_true_eq] at apart
  simp only [isIn, List.any_eq_true, Interval.contains, Bool.and_eq_true, decide_eq_true_eq] at here
  obtain ⟨i, inFirst, from', upTo⟩ := here
  simp only [isIn, List.any_eq_false, Interval.contains, Bool.and_eq_true, decide_eq_true_eq]
  intro j inSecond
  have := apart i inFirst j inSecond
  omega

/-- White space and the mark of the order of bytes. -/
def gapIntervals : List Interval :=
  [⟨0x9, 0xd⟩, ⟨0x20, 0x20⟩, ⟨0x85, 0x85⟩, ⟨0xa0, 0xa0⟩, ⟨0x1680, 0x1680⟩, ⟨0x2000, 0x200a⟩,
    ⟨0x2028, 0x2029⟩, ⟨0x202f, 0x202f⟩, ⟨0x205f, 0x205f⟩, ⟨0x3000, 0x3000⟩, ⟨0xfeff, 0xfeff⟩]

theorem areApart_alphabetic_gap : areApart alphabeticIntervals gapIntervals = true := by
  decide +kernel

theorem isIn_gapIntervals_of_isAlphabetic {c : Char} (alphabetic : isAlphabetic c = true) :
    isIn c gapIntervals = false := by
  unfold isAlphabetic at alphabetic
  split at alphabetic
  · -- In ASCII the letters lie behind all gaps.
    have letter : isIn c [⟨65, 90⟩, ⟨97, 122⟩] = true := by
      rw [show c.isAlpha = (decide (c.val ≥ 'A'.val ∧ c.val ≤ 'Z'.val) ||
        decide (c.val ≥ 'a'.val) && decide (c.val ≤ 'z'.val)) from rfl] at alphabetic
      simp only [Bool.or_eq_true, Bool.and_eq_true, decide_eq_true_eq, UInt32.le_iff_toNat_le,
        ge_iff_le] at alphabetic
      simpa [isIn, Interval.contains] using alphabetic
    exact isIn_eq_false_of_areApart (by decide) letter
  · exact isIn_eq_false_of_areApart areApart_alphabetic_gap alphabetic

theorem areApart_numeric_gap : areApart numericIntervals gapIntervals = true := by
  decide +kernel

theorem isIn_gapIntervals_of_isNumeric {c : Char} (numeric : isNumeric c = true) :
    isIn c gapIntervals = false := by
  unfold isNumeric at numeric
  split at numeric
  · have digit : isIn c [⟨48, 57⟩] = true := by
      simp only [Char.isDigit, Bool.and_eq_true, decide_eq_true_eq, UInt32.le_iff_toNat_le,
        ge_iff_le] at numeric
      simpa [isIn, Interval.contains] using numeric
    exact isIn_eq_false_of_areApart (by decide) digit
  · exact isIn_eq_false_of_areApart areApart_numeric_gap numeric

/-- What is blank stands in the table of gaps. -/
theorem isIn_gapIntervals_of_isBlank {c : Char} (blank : isBlank c = true) : isIn c gapIntervals = true := by
  simp only [isBlank, isIn, List.any_cons, List.any_nil, Bool.or_false, Bool.or_eq_true] at blank
  simp only [gapIntervals, isIn, List.any_cons, List.any_nil, Bool.or_false, Bool.or_eq_true]
  grind

/-- What ends a line stands in the table of gaps. -/
theorem isIn_gapIntervals_of_isLineTerminator {c : Char} (terminates : isLineTerminator c = true) :
    isIn c gapIntervals = true := by
  simp only [isLineTerminator, Bool.or_eq_true, beq_iff_eq] at terminates
  rcases terminates with ((rfl | rfl) | rfl) | rfl
  all_goals decide

end Unicode

/-- No character of an identifier stands in a gap. -/
theorem isIn_gapIntervals_of_isIdentifierPart {c : Char} (part : isIdentifierPart c = true) :
    isIn c gapIntervals = false := by
  simp only [isIdentifierPart, isAlphanumeric, Bool.or_eq_true, beq_iff_eq] at part
  rcases part with (((rfl | rfl) | rfl) | rfl) | alphabetic | numeric
  · decide
  · decide
  · decide
  · decide
  · exact isIn_gapIntervals_of_isAlphabetic alphabetic
  · exact isIn_gapIntervals_of_isNumeric numeric

end BindingRepair
