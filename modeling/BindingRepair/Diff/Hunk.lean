/-
# Hunks

The changes between two texts, with some lines of context around them. Changes whose contexts touch
share a hunk.
-/

import BindingRepair.Diff.Compaction

namespace BindingRepair.Diff

/-- Lines of the old text that lines of the new text replace. -/
structure Change where
  old : Stretch
  new : Stretch
deriving DecidableEq, Repr

/-- The changes of an alignment: edits between equal lines are one change. `pending` is the change that
the blocks read last belong to, and the next blocks begin at `i` and `j`. -/
def changes (pending : Option Change) (i j : Nat) : List Block → List Change
  | [] => pending.toList
  | .equal old new :: blocks =>
    pending.toList ++ changes none (i + old.length) (j + new.length) blocks
  | .delete lines :: blocks =>
    let change := pending.getD ⟨⟨i, 0⟩, ⟨j, 0⟩⟩
    changes (some { change with old := change.old.growBack lines.length }) (i + lines.length) j blocks
  | .insert lines :: blocks =>
    let change := pending.getD ⟨⟨i, 0⟩, ⟨j, 0⟩⟩
    changes (some { change with new := change.new.growBack lines.length }) i (j + lines.length) blocks

/-- A line of a hunk. -/
inductive HunkLine
  | context (text : String)
  | deleted (text : String)
  | inserted (text : String)
deriving DecidableEq, Repr

structure Hunk where
  old : Stretch
  new : Stretch
  lines : List HunkLine
deriving DecidableEq, Repr

/-- How many lines of context surround a change. -/
def contextLength : Nat := 3

section Hunks

variable (texts : Texts)

def linesOf (text : Array String) (start stop : Nat) : List String :=
  (text.extract start stop).toList

/-- How many lines of context follow a change. -/
def contextAfter (c : Change) : Nat :=
  min contextLength (min (texts.old.size - c.old.stop) (texts.new.size - c.new.stop))

/-- The lines of a change. -/
def changedLines (c : Change) : List HunkLine :=
  (linesOf texts.old c.old.start c.old.stop).map .deleted ++
    (linesOf texts.new c.new.start c.new.stop).map .inserted

/-- Lines of the new text that are not changed. -/
def contextLines (start stop : Nat) : List HunkLine :=
  (linesOf texts.new start stop).map .context

/-- Whether a change belongs to the hunk of the change before it. -/
def joins (last next : Change) : Bool :=
  min next.old.start (texts.old.size - 1) - contextLength < last.old.stop + contextAfter texts last

/-- The changes that belong to the hunk of `last`, and those behind them. -/
def splitHunk (last : Change) : List Change → List Change × List Change
  | [] => ([], [])
  | next :: rest =>
    if joins texts last next then
      let (inside, outside) := splitHunk next rest
      (next :: inside, outside)
    else ([], next :: rest)

theorem length_splitHunk (last : Change) (changes : List Change) :
    (splitHunk texts last changes).2.length ≤ changes.length := by
  induction changes generalizing last with
  | nil => simp [splitHunk]
  | cons next rest ih =>
    unfold splitHunk
    split
    · exact Nat.le_succ_of_le (ih next)
    · exact Nat.le_refl _

/-- The lines of a change that ends at `last`, and of further changes in its hunk. -/
def furtherLines (last : Change) : List Change → List HunkLine
  | [] => contextLines texts last.new.stop (last.new.stop + contextAfter texts last)
  | next :: rest =>
    contextLines texts last.new.stop next.new.start ++ changedLines texts next ++
      furtherLines next rest

/-- The hunk of a change and further ones. -/
def hunkOf (first : Change) (inside : List Change) : Hunk :=
  let last := inside.getLast?.getD first
  let oldStart := first.old.start - contextLength
  let newStart := first.new.start - contextLength
  { old := ⟨oldStart, last.old.stop + contextAfter texts last - oldStart⟩
    new := ⟨newStart, last.new.stop + contextAfter texts last - newStart⟩
    lines := contextLines texts newStart first.new.start ++ changedLines texts first ++
      furtherLines texts first inside }

/-- The hunks of changes. -/
def hunks : List Change → List Hunk
  | [] => []
  | first :: rest =>
    hunkOf texts first (splitHunk texts first rest).1 :: hunks (splitHunk texts first rest).2
termination_by changes => changes.length
decreasing_by
  have := length_splitHunk texts first rest
  simp only [List.length_cons]
  omega

end Hunks

namespace Hunk

/-- A line behind a mark; a text that does not end its line is told apart from one that does. -/
def markedLine (mark : String) (text : String) : String :=
  mark ++ text ++ if text.toList.getLast? = some '\n' then "" else "\n\\ No newline at end of file\n"

/-- A line of a hunk; empty lines of context stand without a mark. -/
def lineText : HunkLine → String
  | .context text => if text = "\n" then text else markedLine " " text
  | .deleted text => markedLine "-" text
  | .inserted text => markedLine "+" text

/-- Where lines start, counted from 1, and how many they are if not one. -/
def rangeText (s : Stretch) : String :=
  toString (if s.length = 0 then s.start else s.start + 1) ++
    if s.length = 1 then "" else "," ++ toString s.length

def render (h : Hunk) : String :=
  "@@ -" ++ rangeText h.old ++ " +" ++ rangeText h.new ++ " @@\n" ++
    String.join (h.lines.map lineText)

end Hunk

end BindingRepair.Diff
