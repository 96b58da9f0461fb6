/-
# Compaction

Moves the edits of an alignment so that edits of one kind meet. An edit next to equal lines can move
over as many of them as it shares at the other end; it is first moved up and then down, as far as it
goes, and merges with the edits of its kind on the way.
-/

import BindingRepair.Diff.Alignment

namespace BindingRepair.Diff

inductive EditKind
  | delete
  | insert
deriving DecidableEq, Repr

/-- An edit: lines that are deleted from the old text, or inserted into the new one. -/
structure Edit where
  kind : EditKind
  lines : Stretch
deriving DecidableEq, Repr

namespace Edit

def toBlock (e : Edit) : Block :=
  match e.kind with
  | .delete => .delete e.lines
  | .insert => .insert e.lines

/-- The edit that a block is. -/
def ofBlock? : Block → Option Edit
  | .equal _ _ => none
  | .delete lines => some ⟨.delete, lines⟩
  | .insert lines => some ⟨.insert, lines⟩

/-- The text that the lines of an edit belong to. -/
def text (e : Edit) (texts : Texts) : Array String :=
  match e.kind with
  | .delete => texts.old
  | .insert => texts.new

/-- Of a stretch of equal lines, the side that the lines of an edit belong to. -/
def side (e : Edit) (old new : Stretch) : Stretch :=
  match e.kind with
  | .delete => old
  | .insert => new

end Edit

/-- An alignment around one of its edits. -/
structure Place where
  /-- What precedes the edit, the nearest first. -/
  above : List Block
  edit : Edit
  below : List Block
deriving DecidableEq, Repr

/-- How many lines and blocks there are. -/
def extent : List Block → Nat
  | [] => 0
  | .equal old new :: blocks => old.length + new.length + 1 + extent blocks
  | .delete lines :: blocks | .insert lines :: blocks => lines.length + 1 + extent blocks

/-- The blocks with `n` equal lines more in front. -/
def growFront (blocks : List Block) (old new : Stretch) (n : Nat) : List Block :=
  match blocks with
  | .equal o w :: rest => .equal (o.growFront n) (w.growFront n) :: rest
  | blocks => .equal old new :: blocks

/-- The blocks above with `n` equal lines more at their end. -/
def growBack (blocks : List Block) (old new : Stretch) (n : Nat) : List Block :=
  match blocks with
  | .equal o w :: rest => .equal (o.growBack n) (w.growBack n) :: rest
  | blocks => .equal old new :: blocks

namespace Place

/-- Moves the edit up one block or a part of one, if it can be moved. -/
def stepUp? (texts : Texts) (p : Place) : Option Place :=
  match p.above with
  | [] => none
  | .equal old new :: above =>
    let text := p.edit.text texts
    let n := p.edit.lines.commonBack text text (p.edit.side old new)
    if n ≠ 0 then
      let lines := p.edit.lines
      let (oldLines, newLines) :=
        match p.edit.kind with
        | .delete => (lines.takeLast n, new.takeLast n)
        | .insert => (old.takeLast n, lines.takeLast n)
      some {
        above := .equal (old.dropLast n) (new.dropLast n) :: above
        edit := { p.edit with lines := lines.moveBack n }
        below := growFront p.below oldLines newLines n }
    else if old.length = 0 then some { p with above }
    else none
  | block :: above =>
    match Edit.ofBlock? block with
    | none => none
    | some e =>
      if e.kind = p.edit.kind then
        some { p with above, edit := { e with lines := e.lines.growBack p.edit.lines.length } }
      else some { p with above, below := block :: p.below }

/-- Moves the edit down one block or a part of one, if it can be moved. -/
def stepDown? (texts : Texts) (p : Place) : Option Place :=
  match p.below with
  | [] => none
  | .equal old new :: below =>
    let text := p.edit.text texts
    let n := p.edit.lines.commonFront text text (p.edit.side old new)
    if n ≠ 0 then
      let lines := p.edit.lines
      let (oldLines, newLines) :=
        match p.edit.kind with
        | .delete => (lines.take n, new.take n)
        | .insert => (old.take n, lines.take n)
      some {
        above := growBack p.above oldLines newLines n
        edit := { p.edit with lines := lines.moveOn n }
        below := .equal (old.drop n) (new.drop n) :: below }
    else if old.length = 0 then some { p with below }
    else none
  | block :: below =>
    match Edit.ofBlock? block with
    | none => none
    | some e =>
      if e.kind = p.edit.kind then
        some { p with below, edit := { p.edit with lines := p.edit.lines.growBack e.lines.length } }
      else some { p with above := block :: p.above, below }

/-- Makes steps as long as they can be made, at most `n`. -/
def repeatedly (step : Place → Option Place) : (n : Nat) → Place → Place
  | 0, p => p
  | n + 1, p =>
    match step p with
    | none => p
    | some q => repeatedly step n q

/-- Moves the edit up and then down, as far as it goes. -/
def settle (texts : Texts) (p : Place) : Place :=
  let up := repeatedly (stepUp? texts) (extent p.above) p
  repeatedly (stepDown? texts) (extent up.below) up

end Place

/-- Settles the edits of a kind one after another, at most `n` blocks long. -/
def compactKind (texts : Texts) (kind : EditKind) :
    (n : Nat) → (above below : List Block) → List Block
  | 0, above, below => above.reverse ++ below
  | _ + 1, above, [] => above.reverse
  | n + 1, above, block :: below =>
    match Edit.ofBlock? block with
    | none => compactKind texts kind n (block :: above) below
    | some edit =>
      if edit.kind = kind then
        let p := Place.settle texts { above, edit, below }
        compactKind texts kind n (p.edit.toBlock :: p.above) p.below
      else compactKind texts kind n (block :: above) below

/-- Settles the deletions of an alignment, and then its insertions. -/
def compact (texts : Texts) (blocks : List Block) : List Block :=
  let bound := 2 * (texts.old.size + texts.new.size + blocks.length + 1)
  compactKind texts .insert bound [] (compactKind texts .delete bound [] blocks)

end BindingRepair.Diff
