/-
# Spans of a text

A span is a stretch of a text, given by the byte offsets of its two ends.
-/

import BindingRepair.Text.Cursor

namespace BindingRepair.Text

/-- The bytes from `start` up to, and without, `stop`. -/
structure Span where
  start : Nat
  stop : Nat
deriving Repr, DecidableEq, Inhabited

namespace Span

/-- The empty span at an offset. -/
def emptyAt (offset : Nat) : Span :=
  ⟨offset, offset⟩

/-- Number of bytes. -/
def length (s : Span) : Nat :=
  s.stop - s.start

/-- Whether no byte lies in the span. -/
def isEmpty (s : Span) : Bool :=
  s.start == s.stop

/-- Whether the byte at `offset` lies in the span. -/
def contains (s : Span) (offset : Nat) : Bool :=
  s.start ≤ offset && offset < s.stop

/-- The characters of `text` in the span. -/
def chars (s : Span) (text : List Char) : List Char :=
  slice text s.start s.stop

/-- Writes a span as its two ends with two dots between. -/
def render (s : Span) : String :=
  toString s.start ++ ".." ++ toString s.stop

end Span

end BindingRepair.Text
