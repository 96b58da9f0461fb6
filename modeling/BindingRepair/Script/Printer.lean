/-
# Printing a tree

A tree is printed by splicing the text of its edits into the source. What no edit touches is copied,
so a tree without edits prints its source.
-/

import BindingRepair.Script.Edit

namespace BindingRepair.Script

open Text

/-- A text that takes the place of a stretch of the source. -/
structure Patch where
  span : Span
  text : String
deriving DecidableEq, Repr

namespace Patch

/-- Patches in the order of their starts, and of their ends where they start together. -/
def precedes (a b : Patch) : Bool :=
  a.span.start < b.span.start || (a.span.start == b.span.start && a.span.stop ≤ b.span.stop)

end Patch

/-- Why a tree cannot be printed. -/
inductive PrintError
  /-- Two edits meet at an offset. -/
  | overlap (offset : Nat)
deriving DecidableEq, Repr

/-- The error in words. -/
def PrintError.message : PrintError → String
  | overlap offset => "overlapping edits at byte " ++ toString offset

/-- The characters from `offset` on, with the patches in the places of their spans. -/
def splice (offset : Nat) (rest : List Char) : List Patch → Except PrintError (List Char)
  | [] => .ok rest
  | p :: ps =>
    if p.span.start < offset then .error (.overlap p.span.start)
    else do
      let after ← splice p.span.stop (dropBytes (p.span.stop - offset) rest) ps
      return takeBytes (p.span.start - offset) rest ++ p.text.toList ++ after

namespace Tree

/-- The names that have been added to an import. -/
def addedNames (t : Tree) (i : ImportNode) : List String :=
  i.added.filterMap t.name?

/-- Names between braces, as an import lists them. -/
def bracedNames (names : List String) : String :=
  "\x7b " ++ ", ".intercalate names ++ " \x7d"

/-- What is written for a renamed binding: a property key and an export keep the old name. -/
def renamedText (site : BindingSite) (oldName name : String) : String :=
  if site.shorthand then oldName ++ ": " ++ name
  else if site.unaliased then oldName ++ " as " ++ name
  else name

/-- The patch of a binding that has been renamed. -/
def renamePatch? (n : Node) : Option Patch :=
  match n.kind with
  | .identifier i => do
    let oldName ← i.renamedFrom
    let site ← i.site?
    if i.synthesized || n.span.isEmpty then none
    else some ⟨n.span, renamedText site oldName i.name⟩
  | _ => none

/-- What is added behind the last specifier of an import that starts at `opening`. -/
def specifiersText (t : Tree) (opening : Nat) (last : ImportSpecifier) (names : List String) :
    String :=
  let separator :=
    if t.lines.lineAt opening == t.lines.lineAt last.span.start then ", "
    else "," ++ t.newline ++ String.ofList (t.lines.indentAt t.source last.span.start)
  String.join (names.map (separator ++ ·))

/-- The patch of an import in the source that names have been added to. -/
def importPatch? (t : Tree) (id : NodeId) (i : ImportNode) : Option Patch :=
  let names := t.addedNames i
  if i.added.isEmpty || (t.spanOf id).isEmpty then none
  else
    match i.named, i.defaultName with
    | some named, _ =>
      match named.specifiers.getLast? with
      | some last => some ⟨Span.emptyAt last.span.stop, t.specifiersText named.opening last names⟩
      | none => some ⟨⟨named.opening, named.closing + 1⟩, bracedNames names⟩
    | none, some name => some ⟨Span.emptyAt (t.spanOf name).stop, ", " ++ bracedNames names⟩
    | none, none => none

/-- The text of a node that is not in the source. -/
def synthesizedText (t : Tree) (id : NodeId) : String :=
  let semicolon := if t.style.semicolons then ";" else ""
  let name (n : NodeId) : String := (t.name? n).getD ""
  match t.kind? id with
  | some (.importDeclaration i) =>
    let quote := t.style.quote.toString
    "import " ++ bracedNames (t.addedNames i) ++ " from " ++ quote ++ i.source ++ quote ++ semicolon
  | some (.synthesized (.state value setter callee)) =>
    "const [" ++ name value ++ ", " ++ name setter ++ "] = " ++ callee ++ "(null)" ++ semicolon
  | some (.synthesized (.null n)) => "let " ++ name n ++ " = null" ++ semicolon
  | _ => ""

def insertionPatch (t : Tree) (i : Insertion) : Patch :=
  ⟨Span.emptyAt i.offset, i.lead ++ t.synthesizedText i.node ++ i.trail⟩

/-- The patches of all edits, in the order in which they are spliced in. -/
def patches (t : Tree) : List Patch :=
  (t.nodes.toList.filterMap renamePatch? ++
    t.imports.filterMap (fun (id, i) => t.importPatch? id i) ++
    t.insertions.map t.insertionPatch).mergeSort Patch.precedes

/-- The source with all edits. -/
def print (t : Tree) : Except PrintError String := do
  return String.ofList (← splice 0 t.source t.patches)

end Tree

end BindingRepair.Script
