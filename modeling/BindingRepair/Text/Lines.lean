/-
# Lines and columns

A line table holds the byte offset at which each line of a text starts, and converts between offsets
and positions. Lines count from 1. Columns count UTF-16 code units from 0, which is how analyzers
report them.
-/

import BindingRepair.Text.Cursor

namespace BindingRepair.Text

/-- The characters that end a line. -/
def isLineTerminator (c : Char) : Bool :=
  c == '\n' || c == '\r' || c == '\u2028' || c == '\u2029'

/-- A line and a column of it. -/
structure Position where
  /-- Counts from 1. -/
  line : Nat
  /-- UTF-16 code units from the start of the line. -/
  column : Nat
deriving Repr, DecidableEq, Inhabited

/-- The offsets at which lines start, in ascending order. -/
structure LineTable where
  starts : List Nat
deriving Repr

namespace LineTable

/-- The starts of the lines that begin after a terminator in the given characters, which lie at
`offset`. A carriage return and the line feed behind it are one terminator. -/
def startsFrom (offset : Nat) : List Char → List Nat
  | [] => []
  | '\r' :: '\n' :: cs => (offset + 2) :: startsFrom (offset + 2) cs
  | c :: cs =>
    if isLineTerminator c then
      (offset + c.utf8Size) :: startsFrom (offset + c.utf8Size) cs
    else
      startsFrom (offset + c.utf8Size) cs

/-- The line table of a text. -/
def ofText (text : List Char) : LineTable :=
  ⟨0 :: startsFrom 0 text⟩

/-- Number of lines. -/
def size (t : LineTable) : Nat :=
  t.starts.length

/-- The line that contains an offset. -/
def lineAt (t : LineTable) (offset : Nat) : Nat :=
  (t.starts.takeWhile (· ≤ offset)).length

/-- The offset at which a line starts. -/
def start? (t : LineTable) (line : Nat) : Option Nat :=
  if line = 0 then none else t.starts[line - 1]?

/-- The offset at which the line that contains `offset` starts. -/
def startOfLineAt (t : LineTable) (offset : Nat) : Nat :=
  (t.start? (t.lineAt offset)).getD 0

/-- The position of an offset. -/
def position (t : LineTable) (text : List Char) (offset : Nat) : Position :=
  ⟨t.lineAt offset, utf16Length (slice text (t.startOfLineAt offset) offset)⟩

/-- The place `column` code units into the given characters, which lie at `offset`; none if they are
fewer or a character straddles it. -/
def offsetInLine (offset : Nat) (column : Nat) : List Char → Option Nat
  | [] => if column = 0 then some offset else none
  | c :: cs =>
    if column = 0 then some offset
    else if column < utf16Size c then none
    else offsetInLine (offset + c.utf8Size) (column - utf16Size c) cs

/-- The offset of a position; none if the position lies behind the end of its line or inside a
character. -/
def offset? (t : LineTable) (text : List Char) (p : Position) : Option Nat := do
  let start ← t.start? p.line
  let stop := (t.start? (p.line + 1)).getD (byteLength text)
  offsetInLine start p.column (slice text start stop)

/-- The spaces and tabs that open the line that contains `offset`. -/
def indentAt (t : LineTable) (text : List Char) (offset : Nat) : List Char :=
  (dropBytes (t.startOfLineAt offset) text).takeWhile fun c => c == ' ' || c == '\t'

end LineTable

end BindingRepair.Text
