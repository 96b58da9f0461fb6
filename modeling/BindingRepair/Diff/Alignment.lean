/-
# Alignments

An alignment tells which lines of two texts are equal, and which are deleted or inserted between them.
It is found by divide and conquer: common lines at both ends are set aside, and what is left is cut at
a point on a shortest path of edits, found by searching from both ends at once.
-/

namespace BindingRepair.Diff

/-- A stretch of lines: where it starts, and how long it is. -/
structure Stretch where
  start : Nat
  length : Nat
deriving DecidableEq, Repr

namespace Stretch

def stop (s : Stretch) : Nat :=
  s.start + s.length

/-- The lines of a stretch from its end on backwards. -/
def dropLast (s : Stretch) (n : Nat) : Stretch :=
  ⟨s.start, s.length - n⟩

def drop (s : Stretch) (n : Nat) : Stretch :=
  ⟨s.start + n, s.length - n⟩

def take (s : Stretch) (n : Nat) : Stretch :=
  ⟨s.start, n⟩

def takeLast (s : Stretch) (n : Nat) : Stretch :=
  ⟨s.stop - n, n⟩

/-- The stretch, longer by `n` lines in front. -/
def growFront (s : Stretch) (n : Nat) : Stretch :=
  ⟨s.start - n, s.length + n⟩

def growBack (s : Stretch) (n : Nat) : Stretch :=
  ⟨s.start, s.length + n⟩

def moveBack (s : Stretch) (n : Nat) : Stretch :=
  ⟨s.start - n, s.length⟩

def moveOn (s : Stretch) (n : Nat) : Stretch :=
  ⟨s.start + n, s.length⟩

end Stretch

/-- Two texts as lines. -/
structure Texts where
  old : Array String
  new : Array String

/-- A part of an alignment. -/
inductive Block
  | equal (old new : Stretch)
  | delete (old : Stretch)
  | insert (new : Stretch)
deriving DecidableEq, Repr

/-- How many lines two stretches have in common from their starts on. -/
def commonPrefix (a b : Array String) : (n : Nat) → (i j : Nat) → Nat
  | 0, _, _ => 0
  | n + 1, i, j => if a[i]? = b[j]? then commonPrefix a b n (i + 1) (j + 1) + 1 else 0

/-- How many lines two stretches have in common, counted from their ends back. -/
def commonSuffix (a b : Array String) : (n : Nat) → (i j : Nat) → Nat
  | 0, _, _ => 0
  | n + 1, i, j => if a[i - 1]? = b[j - 1]? then commonSuffix a b n (i - 1) (j - 1) + 1 else 0

namespace Stretch

/-- How many lines a stretch of `a` and one of `b` have in common at their starts. -/
def commonFront (a b : Array String) (s t : Stretch) : Nat :=
  commonPrefix a b (min s.length t.length) s.start t.start

/-- How many lines a stretch of `a` and one of `b` have in common at their ends. -/
def commonBack (a b : Array String) (s t : Stretch) : Nat :=
  commonSuffix a b (min s.length t.length) s.stop t.stop

end Stretch

/-! ### The middle of a shortest path -/

/-- How far the paths of one search have come on each diagonal. -/
structure Frontier where
  reach : Array Nat
  /-- The place of diagonal zero. -/
  center : Nat

namespace Frontier

def empty (center : Nat) : Frontier :=
  ⟨Array.replicate (2 * center) 0, center⟩

def get (f : Frontier) (k : Int) : Nat :=
  f.reach.getD (k + f.center).toNat 0

def set (f : Frontier) (k : Int) (x : Nat) : Frontier :=
  { f with reach := f.reach.setIfInBounds (k + f.center).toNat x }

/-- Where a path with `d` edits that ends on diagonal `k` begins its last run of equal lines. -/
def advance (f : Frontier) (d : Nat) (k : Int) : Nat :=
  if k = -(d : Int) || (k ≠ d && f.get (k - 1) < f.get (k + 1)) then f.get (k + 1)
  else f.get (k - 1) + 1

end Frontier

/-- The two searches: from the start on, and from the end back. -/
structure Searches where
  ahead : Frontier
  back : Frontier

/-- A bound on the edits that each of the two searches needs. -/
def maxEdits (n m : Nat) : Nat :=
  (n + m + 1) / 2 + 1

/-- The diagonals that `d` edits can end on, from the highest one down. -/
def diagonals (d : Nat) : List Int :=
  (List.range (d + 1)).map fun (i : Nat) => (d : Int) - 2 * (i : Int)

/-- The point of a path, if any, at which the two searches meet, and what they have reached. -/
abbrev Meeting := Option (Nat × Nat) × Searches

section Middle

variable (texts : Texts) (old new : Stretch)

/-- How far apart the last diagonal is from the first. -/
def lastDiagonal : Int :=
  (old.length : Int) - new.length

/-- One step of the search from the start on. -/
def stepAhead (d : Nat) (s : Searches) (k : Int) : Meeting :=
  let x := s.ahead.advance d k
  let y := (x : Int) - k
  let run :=
    if x < old.length && 0 ≤ y && y < new.length then
      (old.drop x).commonFront texts.old texts.new (new.drop y.toNat)
    else 0
  let searches := { s with ahead := s.ahead.set k (x + run) }
  let delta := lastDiagonal old new
  if delta % 2 = 1 && (k - delta).natAbs + 1 ≤ d &&
      old.length ≤ x + run + s.back.get (delta - k) then
    (some (x, y.toNat), searches)
  else (none, searches)

/-- One step of the search from the end back. -/
def stepBack (d : Nat) (s : Searches) (k : Int) : Meeting :=
  let x := s.back.advance d k
  let y := (x : Int) - k
  let run :=
    if x < old.length && 0 ≤ y && y < new.length then
      (old.dropLast x).commonBack texts.old texts.new (new.dropLast y.toNat)
    else 0
  let searches := { s with back := s.back.set k (x + run) }
  let delta := lastDiagonal old new
  if delta % 2 = 0 && (k - delta).natAbs ≤ d &&
      old.length ≤ x + run + s.ahead.get (delta - k) then
    (some (old.length - (x + run), new.length - (y + run).toNat), searches)
  else (none, searches)

/-- Steps on each of the diagonals, until the searches meet. -/
def stepAll (step : Searches → Int → Meeting) (s : Searches) : List Int → Meeting
  | [] => (none, s)
  | k :: ks =>
    match step s k with
    | (some point, s) => (some point, s)
    | (none, s) => stepAll step s ks

/-- Both searches with `d` edits and more, at most `n` times. -/
def search : (n : Nat) → (d : Nat) → Searches → Meeting
  | 0, _, s => (none, s)
  | n + 1, d, s =>
    match stepAll (stepAhead texts old new d) s (diagonals d) with
    | (some point, s) => (some point, s)
    | (none, s) =>
      match stepAll (stepBack texts old new d) s (diagonals d) with
      | (some point, s) => (some point, s)
      | (none, s) => search n (d + 1) s

/-- A point on a shortest path between two stretches, relative to their starts. What earlier searches
have reached stays in place, but for the diagonal that this one begins with. -/
def middle (s : Searches) : (Nat × Nat) × Searches :=
  let fresh : Searches := { ahead := s.ahead.set 1 0, back := s.back.set 1 0 }
  match search texts old new (maxEdits old.length new.length) 0 fresh with
  | (some point, s) => (point, s)
  | (none, s) => ((old.length, 0), s)

end Middle

/-! ### Divide and conquer -/

/-- The blocks of two stretches, put in front of `acc` last first; the stretches are cut at most
`depth` times one inside another. -/
def alignStretches (texts : Texts) :
    (depth : Nat) → Stretch → Stretch → Searches → List Block → List Block × Searches
  | 0, old, new, s, acc => (.insert new :: .delete old :: acc, s)
  | depth + 1, old, new, s, acc =>
    let front := old.commonFront texts.old texts.new new
    let acc := if front = 0 then acc else .equal (old.take front) (new.take front) :: acc
    let old := old.drop front
    let new := new.drop front
    let back := old.commonBack texts.old texts.new new
    let oldBack := old.takeLast back
    let newBack := new.takeLast back
    let old := old.dropLast back
    let new := new.dropLast back
    let (acc, s) :=
      if old.length = 0 && new.length = 0 then (acc, s)
      else if old.length = 0 then (.insert new :: acc, s)
      else if new.length = 0 then (.delete old :: acc, s)
      else
        let ((x, y), s) := middle texts old new s
        let (acc, s) := alignStretches texts depth (old.take x) (new.take y) s acc
        alignStretches texts depth (old.drop x) (new.drop y) s acc
    (if back = 0 then acc else .equal oldBack newBack :: acc, s)

/-- The blocks of two texts, in order. -/
def align (texts : Texts) : List Block :=
  let center := maxEdits texts.old.size texts.new.size
  let searches : Searches := ⟨Frontier.empty center, Frontier.empty center⟩
  (alignStretches texts (texts.old.size + texts.new.size + 1) ⟨0, texts.old.size⟩
    ⟨0, texts.new.size⟩ searches []).1.reverse

end BindingRepair.Diff
