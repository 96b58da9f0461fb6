/-
# Paths

Paths are texts whose components are separated by slashes. Two texts with the same components name the
same file, so every question about paths is asked of their components.
-/

namespace BindingRepair.Path

inductive Component
  /-- The slash at the beginning. -/
  | root
  /-- A dot at the beginning. -/
  | here
  /-- Two dots. -/
  | up
  | name (name : String)
deriving DecidableEq, Repr

/-- The texts between slashes. -/
def segments (path : String) : List (List Char) :=
  path.toList.splitOn '/'

/-- The component that a segment stands for; empty segments and dots stand for none. -/
def Component.ofSegment? (segment : List Char) : Option Component :=
  match segment with
  | [] | ['.'] => none
  | ['.', '.'] => some .up
  | _ => some (.name (String.ofList segment))

/-- Whether a path begins with a slash. -/
def isAbsolute (path : String) : Bool :=
  path.toList.head? == some '/'

/-- The components of a path. A slash or a dot counts only at its beginning. -/
def components (path : String) : List Component :=
  let parts := segments path
  let lead := if isAbsolute path then [Component.root]
    else if parts.head? == some ['.'] then [.here] else []
  lead ++ parts.filterMap Component.ofSegment?

/-- The names of a path that is relative and does not climb. -/
def names? (parts : List Component) : Option (List String) :=
  match parts with
  | [] => some []
  | .here :: rest => names? rest
  | .name n :: rest => (names? rest).map (n :: ·)
  | .root :: _ | .up :: _ => none

/-- The path of the given names. -/
def ofNames (names : List String) : String :=
  "/".intercalate names

/-- What follows the components of `base` in a path. -/
def below? (base path : String) : Option (List Component) :=
  (components base).isPrefixOf? (components path)

/-- A path below another one; an absolute path stays as it is. -/
def join (base path : String) : String :=
  if isAbsolute path || base.isEmpty then path
  else if base.toList.getLast? == some '/' then base ++ path
  else base ++ "/" ++ path

/-- Whether a segment stands for no component where it is not the first one. -/
def isIdle (segment : List Char) : Bool :=
  (Component.ofSegment? segment).isNone

/-- The paths that end with one of the given segments, which are in reverse order, and behind them
those in `outer`. Every path begins with `lead`. -/
def ancestorsFrom (lead : List Char) (outer : List String) : List (List Char) → List String
  | [] => outer
  | segment :: before =>
    if isIdle segment then ancestorsFrom lead outer before
    else
      String.ofList (lead ++ ['/'].intercalate (segment :: before).reverse) ::
        ancestorsFrom lead outer before

/-- A path and those of the directories around it, from the inside out. Slashes and dots stay as they
are, except at the end. A relative path begins in the directory of the empty path. -/
def ancestors (path : String) : List String :=
  match path.toList with
  | '/' :: cs => ancestorsFrom ['/'] ["/"] (cs.splitOn '/').reverse
  | ['.'] => [".", ""]
  | '.' :: '/' :: cs => ancestorsFrom ['.', '/'] [".", ""] (cs.splitOn '/').reverse
  | cs => ancestorsFrom [] [""] (cs.splitOn '/').reverse

/-- The path of the directory around what a path names. -/
def parent? (path : String) : Option String :=
  (ancestors path)[1]?

/-- The last component of a path, if it is a name. -/
def fileName? (path : String) : Option String :=
  match (components path).getLast? with
  | some (.name n) => some n
  | _ => none

/-- What follows the last dot of a name, if something precedes that dot. -/
def extensionOfName? (name : String) : Option String :=
  match name.toList.reverse.span (· != '.') with
  | (_, []) | (_, [_]) => none
  | (ending, _ :: _ :: _) => some (String.ofList ending.reverse)

/-- The extension of the file that a path names. -/
def extension? (path : String) : Option String := do
  extensionOfName? (← fileName? path)

/-- The order of paths: name by name. -/
def before (a b : List String) : Bool :=
  match a, b with
  | _, [] => false
  | [], _ :: _ => true
  | x :: xs, y :: ys => x < y || (x == y && before xs ys)

end BindingRepair.Path
