/-
# Gaps of a parsed tree

An edit puts a text behind the first imports, behind the prologue, or to the top of a body in braces. There the
source has a gap: from a place up to the next token stand blanks and comments, and no name and no import of the
module reaches into them. A new text goes to the beginning of a gap, to its end, or to the end of a line in it.
-/

import BindingRepair.Proofs.Accounts
import BindingRepair.Proofs.Lexer.Gaps

namespace BindingRepair.Script

open Text Cursor Grammar

/-- What is in the module, the module itself apart, lies in a statement that was not read later. -/
theorem Layout.exists_statement {origin : Cursor} {nodes : Array Node} (layout : Layout origin nodes []) {i : Nat}
    {n : Node} (found : nodes[i]? = some n) (inner : i ≠ 0) :
    ∃ k m, nodes[k]? = some m ∧ m.parent = some Tree.root ∧ k ≤ i ∧ n.span.stop ≤ m.span.stop := by
  -- Parents have smaller numbers, and what is in a node ends before it does.
  induction i using Nat.strongRecOn generalizing n with
  | _ i ih =>
      cases parent : n.parent with
      | none => exact absurd (layout.rooted i n found parent) inner
      | some p =>
          have before := layout.parent_lt i n p found parent
          obtain ⟨m, there⟩ : ∃ m, nodes[p.index]? = some m :=
            ⟨_, Array.getElem?_eq_getElem (Nat.lt_trans before (Array.getElem?_eq_some_iff.mp found).choose)⟩
          by_cases top : p.index = 0
          · have isRoot : p = Tree.root := congrArg NodeId.mk top
            exact ⟨i, n, found, isRoot ▸ parent, Nat.le_refl _, Nat.le_refl _⟩
          · obtain ⟨k, statement, here, isTop, earlier, stop⟩ := ih p.index before there top
            refine ⟨k, statement, here, isTop, Nat.le_trans earlier (Nat.le_of_lt before), ?_⟩
            exact Nat.le_trans (layout.stop i n p m found parent there List.not_mem_nil) stop

namespace Tree

/-- The nodes lie in the source as the parser has read them. -/
structure IsLaidOut (t : Tree) : Prop where
  layout : Layout (start t.source) t.nodes []
  later : ∀ (i j : Nat) (n m : Node), t.nodes[i]? = some n → t.nodes[j]? = some m → i < j →
    n.kind.isIdentifier = true → n.span.stop ≤ m.span.start
  imports : ∀ (i : Nat) (n : Node) (node : ImportNode), t.nodes[i]? = some n →
    n.kind = .importDeclaration node → node.Fits (start t.source) t.nodes i n.span
  bodies : ∀ (i : Nat) (n : Node), t.nodes[i]? = some n → ∀ body ∈ n.kind.body?,
    body.Fits (start t.source) t.nodes ⟨i⟩
  first : Parted t.nodes (start t.source)
  isModule : ∃ n m, t.nodes[0]? = some n ∧ n.kind = .module m ∧ m.hashbangEnd = hashbangEnd? t.source ∧
    ∀ o ∈ m.directivesEnd, DirectivesEnd t.source t.nodes o

end Tree

theorem isLaidOut_of_parse {source : String} {dialect : Dialect} {t : Tree}
    (parsed : parse source dialect = .ok t) : t.IsLaidOut := by
  obtain ⟨s, finished, rfl⟩ := finished_of_parse parsed
  have grown := finished.steps.grown (State.grown_initialState source.toList)
  obtain ⟨n, m, root, kind, -, hashbang, directives⟩ := finished.root
  exact {
    layout := finished.opened ▸ grown.layout
    later := grown.later
    imports := grown.imports
    bodies := grown.bodies
    first := finished.first
    isModule := ⟨n, m, root, kind, hashbang, directives⟩ }

/-! ### Gaps -/

/-- The node is a name or an import of the module. Texts go in front of it or behind it, but for those that
take its place or join its names. -/
def Node.IsWhole (n : Node) : Prop :=
  n.kind.isIdentifier = true ∨ n.kind.isImport = true ∧ n.parent = some Tree.root

theorem NodeKind.isImport_iff {kind : NodeKind} : kind.isImport = true ↔ ∃ i, kind = .importDeclaration i := by
  cases kind <;> simp [isImport]

namespace Tree

variable {t : Tree} {place : Cursor}

/-- From the place up to the next token there are no names and no parts of imports. -/
def IsGap (t : Tree) (place : Cursor) : Prop :=
  ∀ (i : Nat) (n : Node), t.nodes[i]? = some n → n.IsWhole →
    n.span.stop ≤ place.offset ∨ gapEnd place ≤ n.span.start

/-- The offset is one of those in the gap at a place. -/
def InGap (place : Cursor) (offset : Nat) : Prop :=
  place.offset ≤ offset ∧ offset ≤ gapEnd place

/-- A text can be inserted at the offset: it lies in a gap. -/
def Receives (t : Tree) (offset : Nat) : Prop :=
  ∃ place, t.IsGap place ∧ InGap place offset

theorem inGap_offset (place : Cursor) : InGap place place.offset :=
  ⟨Nat.le_refl _, le_gapEnd place⟩

theorem inGap_gapEnd (place : Cursor) : InGap place (gapEnd place) :=
  ⟨le_gapEnd place, Nat.le_refl _⟩

/-- The cursor at the offset of a place is the place. -/
theorem cursorAt_offset (reaches : (start t.source).Reaches place) : t.cursorAt place.offset = place :=
  (marks_cursorAt reaches.marks).eq_of_offset reaches rfl

theorem le_endOfLineTrivia (t : Tree) (offset : Nat) : offset ≤ t.endOfLineTrivia offset := by
  unfold endOfLineTrivia
  cases found : lineTriviaEnd? false offset (t.cursorAt offset).rest with
  | none => exact Nat.le_refl _
  | some behind =>
      obtain ⟨later, reaches, rfl⟩ := marks_lineTriviaEnd? found
      exact reaches.offset_le

/-- The blanks and comments that end a line behind a place end at a place that is not before it, and no token has begun
there, unless a comment behind two slashes holds a line separator or a paragraph separator: the lexer goes on with code
behind one of these, in the middle of what is passed over here. -/
theorem endOfLineTrivia_passes_trivia (reaches : (start t.source).Reaches place) :
    (start t.source).Marks (t.endOfLineTrivia place.offset) ∧ place.offset ≤ t.endOfLineTrivia place.offset ∧
      (t.endOfLineTrivia place.offset ≤ (Token.read place).start ∨
        HidesLineEnd place.offset (t.endOfLineTrivia place.offset) place.rest) := by
  have same := cursorAt_offset reaches
  refine ⟨marks_endOfLineTrivia reaches.marks, t.le_endOfLineTrivia _, or_iff_not_imp_right.mpr fun visible => ?_⟩
  rw [← same] at visible
  exact (endOfLineTrivia_le_gapEnd visible).trans_eq ((congrArg gapEnd same).trans (Token.start_read place).symm)

/-- Behind the line separator a call begins. The line feed in its template is taken for the end of the comment. -/
example : lineTriviaEnd? false 17 " // x\u2028f(`\n`)".toList = some 28 ∧
    gapEnd ⟨17, " // x\u2028f(`\n`)".toList⟩ = 25 := by
  decide

/-- The blanks and comments that end a line behind a place stand in the gap there. -/
theorem inGap_endOfLineTrivia (reaches : (start t.source).Reaches place) (plain : HasPlainLines t.source) :
    InGap place (t.endOfLineTrivia place.offset) := by
  have rest : HasPlainLines place.rest := by
    obtain ⟨word, parts, -⟩ := reaches
    exact HasPlainLines.of_append word (parts ▸ plain)
  obtain ⟨-, later, before | hides⟩ := endOfLineTrivia_passes_trivia reaches
  · exact ⟨later, before.trans_eq (Token.start_read place)⟩
  · exact absurd rest hides.not_plain

/-- The characters that end no line. -/
def inLine (c : Char) : Bool :=
  c != '\n' && c != '\r'

/-- A line ends where blanks and comments behind it end. -/
theorem lineTriviaEnd?_skipWhile (place : Cursor) :
    lineTriviaEnd? false (place.skipWhile inLine).offset (place.skipWhile inLine).rest =
      some (place.skipWhile inLine).offset := by
  rw [skipWhile_eq]
  dsimp only
  cases rest : place.rest.dropWhile inLine with
  | nil => rfl
  | cons c cs =>
      have ends : inLine c = false := by
        have first := List.head?_dropWhile_not inLine place.rest
        simpa [rest] using first
      simp only [inLine, Bool.and_eq_false_iff, bne_eq_false_iff_eq] at ends
      rcases ends with rfl | rfl
      · rfl
      · rfl

theorem eq_of_mem_hashbangEnd? {source : List Char} {o : Nat} (ends : o ∈ hashbangEnd? source) :
    ((start source).offset == 0 && (start source).startsWith "#!") = true ∧
      o = ((start source).skipWhile inLine).offset := by
  unfold hashbangEnd? at ends
  split at ends
  · refine ⟨rfl, ?_⟩
    rw [← Option.mem_some.mp ends, skipWhile_eq]
    exact (Nat.zero_add _).symm
  · exact absurd ends (Option.not_mem_none _)

/-- A first line with a hash and an exclamation mark is a comment before the first token. Nothing stands behind
it on its line. -/
theorem inGap_hashbangEnd (plain : HasPlainLines t.source) {o : Nat} (ends : o ∈ hashbangEnd? t.source) :
    InGap (start t.source) (t.endOfLineTrivia o) := by
  obtain ⟨begins, rfl⟩ := eq_of_mem_hashbangEnd? ends
  have reaches := (start t.source).reaches_skipWhile inLine
  have stays : t.endOfLineTrivia ((start t.source).skipWhile inLine).offset =
      ((start t.source).skipWhile inLine).offset := by
    rw [endOfLineTrivia, cursorAt_offset reaches, lineTriviaEnd?_skipWhile]
    rfl
  rw [stays]
  refine ⟨reaches.offset_le, ?_⟩
  rw [gapEnd, skipTrivia, if_pos begins]
  exact skipWhile_le_triviaEnd false 0 (plain.mono (List.takeWhile_subset _))

namespace IsLaidOut

variable (laidOut : t.IsLaidOut)
include laidOut

/-- The module is neither a name nor an import. -/
theorem ne_zero {i : Nat} {n : Node} (found : t.nodes[i]? = some n) (whole : n.IsWhole) : i ≠ 0 := by
  rintro rfl
  obtain ⟨m, node, root, kind, -⟩ := laidOut.isModule
  obtain rfl := Option.some.inj (found.symm.trans root)
  rcases whole with identifier | ⟨isImport, -⟩
  · rw [kind] at identifier
    cases identifier
  · rw [kind] at isImport
    cases isImport

theorem isGap_of_parted (parted : Parted t.nodes place) : t.IsGap place :=
  fun i n found whole => parted i n found (laidOut.ne_zero found whole)

/-- A name, or an import of the module that was read before another one, ends before it. -/
theorem stop_le_import {i j : Nat} {n m : Node} (found : t.nodes[i]? = some n) (there : t.nodes[j]? = some m)
    (whole : n.IsWhole) (parent : m.parent = some root) (before : i < j) : n.span.stop ≤ m.span.start := by
  rcases whole with identifier | ⟨-, top⟩
  · exact laidOut.later i j n m found there before identifier
  · exact laidOut.layout.behind i j n m found there before (top.trans parent.symm)

/-- An import is not empty. -/
theorem nonempty_import {i : Nat} {n : Node} {node : ImportNode} (found : t.nodes[i]? = some n)
    (kind : n.kind = .importDeclaration node) : n.span.start < n.span.stop :=
  (laidOut.layout.filled i n found List.not_mem_nil).resolve_right
    (Nat.ne_of_lt (laidOut.imports i n node found kind).begins)

theorem passes_import {i : Nat} {n : Node} {node : ImportNode} (found : t.nodes[i]? = some n)
    (kind : n.kind = .importDeclaration node) : (start t.source).Passes (t.cursorAt n.span.stop) :=
  (marks_cursorAt (laidOut.layout.span i n found).stop).passes
    (Nat.zero_lt_of_lt (laidOut.nonempty_import found kind))

/-- Behind an import of the module there is a gap: its names and what was read before it have ended, and all else
begins behind the gap. -/
theorem parted_import {i : Nat} {n : Node} {node : ImportNode} (found : t.nodes[i]? = some n)
    (kind : n.kind = .importDeclaration node) (parent : n.parent = some root) :
    Parted t.nodes (t.cursorAt n.span.stop) := by
  intro j m there inner
  rcases Nat.lt_trichotomy j i with before | rfl | behind
  · obtain ⟨l, statement, top, isTop, earlier, ends⟩ := laidOut.layout.exists_statement there inner
    have apart := laidOut.layout.behind l i statement n top found (Nat.lt_of_le_of_lt earlier before)
      (isTop.trans parent.symm)
    exact .inl (Nat.le_trans ends (Nat.le_trans apart (laidOut.layout.span i n found).ordered))
  · obtain rfl := Option.some.inj (found.symm.trans there)
    exact .inl (Nat.le_refl _)
  · rcases (laidOut.imports i n node found kind).later j m there behind with ⟨-, inside⟩ | later
    · exact .inl (laidOut.layout.stop j m ⟨i⟩ n there inside found List.not_mem_nil)
    · exact .inr (later _ (laidOut.passes_import found kind) rfl)

/-- At the top of a body in braces there is a gap: the node that takes it in is no name, and it lies in another
statement than any import, or behind it in the same one. -/
theorem isGap_body {i : Nat} {n : Node} {f : FunctionNode} (found : t.nodes[i]? = some n)
    (kind : n.kind = .function f) (gap : FreeGapIn (start t.source) t.nodes ⟨i⟩ place) : t.IsGap place := by
  rintro j m there (identifier | ⟨isImport, parent⟩)
  · exact (gap.free j m there identifier).imp_left Nat.le_of_lt
  obtain ⟨node, isImport⟩ := NodeKind.isImport_iff.mp isImport
  obtain ⟨k, taking, here, inside, brackets⟩ := gap.taken
  have notRoot : k ≠ 0 := Nat.ne_of_gt (Nat.zero_lt_of_lt (laidOut.layout.parent_lt k taking _ here inside))
  -- Compared are the import and the node that takes the gap in, by the order in which they were read.
  rcases Nat.lt_trichotomy k j with before | rfl | behind
  · obtain ⟨l, statement, top, isTop, earlier, ends⟩ := laidOut.layout.exists_statement here notRoot
    have apart := laidOut.layout.behind l j statement m top there (Nat.lt_of_le_of_lt earlier before)
      (isTop.trans parent.symm)
    exact .inr (Nat.le_trans (Nat.le_of_lt brackets.stop) (Nat.le_trans ends apart))
  · -- The import would be a part of the function, and the function the module.
    obtain rfl := Option.some.inj (here.symm.trans there)
    obtain rfl : i = 0 := congrArg NodeId.index (Option.some.inj (inside.symm.trans parent))
    obtain ⟨module, m', root, isModule, -⟩ := laidOut.isModule
    obtain rfl := Option.some.inj (found.symm.trans root)
    rw [kind] at isModule
    cases isModule
  · rcases (laidOut.imports j m node there isImport).later k taking here behind with ⟨-, within⟩ | later
    · obtain rfl : i = j := congrArg NodeId.index (Option.some.inj (inside.symm.trans within))
      obtain rfl := Option.some.inj (found.symm.trans there)
      rw [kind] at isImport
      cases isImport
    · have behind' := later _ (laidOut.passes_import there isImport) rfl
      exact .inl (Nat.le_trans (le_gapEnd (t.cursorAt m.span.stop)) (Nat.le_trans behind' (Nat.le_of_lt brackets.start)))

/-! ### Places for texts in gaps -/

variable (plain : HasPlainLines t.source)
include plain

/-- A declaration in a body goes into the gap behind its directives or its opening brace. -/
theorem inGap_declarationPlace {i : Nat} {n : Node} {f : FunctionNode} (found : t.nodes[i]? = some n)
    (kind : n.kind = .function f) {body : FunctionBody} (here : f.body = some body) :
    ∃ place, FreeGapIn (start t.source) t.nodes ⟨i⟩ place ∧ InGap place (t.declarationPlace body).1 := by
  obtain ⟨place, passes, -, anchor, first, free⟩ :=
    laidOut.bodies i n found body (by rw [kind]; exact here)
  refine ⟨place, free, declarationPlace_cases ?_ ?_ fun o here => ?_⟩
  · exact anchor ▸ inGap_offset place
  · exact anchor ▸ inGap_endOfLineTrivia passes.reaches plain
  · rw [first o here]
    exact inGap_gapEnd place

end IsLaidOut

theorem IsLaidOut.exists_of_mem_topLevel (laidOut : t.IsLaidOut) {id : NodeId} (here : id ∈ t.topLevel) :
    ∃ n, t.nodes[id.index]? = some n ∧ n.parent = some root := by
  obtain ⟨module, m, found, -⟩ := laidOut.isModule
  have isRoot : t.node? root = some module := found
  rw [topLevel, childrenOf, isRoot, Option.map_some, Option.getD_some, laidOut.layout.children 0 module found,
    mem_childrenIn] at here
  exact Option.bind_eq_some_iff.mp here

/-- An import of the module, as the node that it is. -/
theorem IsLaidOut.exists_of_mem_imports (laidOut : t.IsLaidOut) {id : NodeId} {i : ImportNode}
    (here : (id, i) ∈ t.imports) : ∃ n, t.nodes[id.index]? = some n ∧ n.kind = .importDeclaration i ∧
      n.parent = some root ∧ t.spanOf id = n.span := by
  obtain ⟨listed, isImport⟩ := mem_imports.mp here
  obtain ⟨n, found, parent⟩ := laidOut.exists_of_mem_topLevel listed
  have isNode : t.node? id = some n := found
  have kind := import?_eq_some_iff.mp isImport
  rw [kind?, isNode, Option.map_some, Option.some.injEq] at kind
  exact ⟨n, found, kind, parent, by rw [spanOf, isNode]; rfl⟩

/-! ### Texts of edits -/

variable {u v : Tree}

@[simp]
theorem insertions_foldl_addImportedName (t : Tree) (importId : NodeId) (names : List String) :
    (names.foldl (·.addImportedName importId) t).insertions = t.insertions := by
  induction names generalizing t with
  | nil => rfl
  | cons name names ih => exact ih (t.addImportedName importId name)

/-- A property of offsets that holds wherever a new import may go in a tree that was read. -/
structure WelcomesImports (t : Tree) (P : Nat → Prop) : Prop where
  start : P 0
  behindImport : ∀ (i : Nat) (n : Node) (node : ImportNode), t.nodes[i]? = some n →
    n.kind = .importDeclaration node → n.parent = some root → P (t.endOfLineTrivia n.span.stop)
  directivesEnd : ∀ o, DirectivesEnd t.source t.nodes o → P (t.endOfLineTrivia o)
  hashbangEnd : ∀ o ∈ hashbangEnd? t.source, P (t.endOfLineTrivia o)

theorem WelcomesImports.imp {P Q : Nat → Prop} (welcomes : t.WelcomesImports P) (more : ∀ o, P o → Q o) :
    t.WelcomesImports Q where
  start := more _ welcomes.start
  behindImport i n node found kind parent := more _ (welcomes.behindImport i n node found kind parent)
  directivesEnd o ends := more _ (welcomes.directivesEnd o ends)
  hashbangEnd o ends := more _ (welcomes.hashbangEnd o ends)

/-- It holds wherever an edit may put a text. -/
structure Welcomes (t : Tree) (P : Nat → Prop) : Prop extends WelcomesImports t P where
  declaration : ∀ (i : Nat) (n : Node) (f : FunctionNode), t.nodes[i]? = some n → n.kind = .function f →
    ∀ body ∈ f.body, P (t.declarationPlace body).1

/-- New imports go into gaps that all nodes keep clear of. -/
theorem IsLaidOut.welcomesImports_parted (laidOut : t.IsLaidOut) (plain : HasPlainLines t.source) :
    t.WelcomesImports fun o => ∃ place, Parted t.nodes place ∧ InGap place o where
  start := ⟨_, laidOut.first, inGap_offset _⟩
  behindImport _ _ _ found kind parent :=
    ⟨_, laidOut.parted_import found kind parent, inGap_endOfLineTrivia (laidOut.passes_import found kind).reaches plain⟩
  directivesEnd o ends := by
    obtain ⟨place, fills, -, rfl, parted⟩ := ends
    exact ⟨place, parted, inGap_endOfLineTrivia fills.reaches plain⟩
  hashbangEnd _ ends := ⟨_, laidOut.first, inGap_hashbangEnd plain ends⟩

theorem IsLaidOut.welcomes_receives (laidOut : t.IsLaidOut) (plain : HasPlainLines t.source) :
    t.Welcomes t.Receives where
  toWelcomesImports := (laidOut.welcomesImports_parted plain).imp fun _ ⟨place, parted, inside⟩ =>
    ⟨place, laidOut.isGap_of_parted parted, inside⟩
  declaration i n f found kind body here := by
    obtain ⟨place, free, inside⟩ := laidOut.inGap_declarationPlace plain found kind here
    exact ⟨place, laidOut.isGap_body found kind free, inside⟩

theorem Inserts.offset_of_mem {P : Nat → Prop} {offset : Nat} (inserts : u.Inserts v offset)
    (placed : ∀ i ∈ u.insertions, P i.offset) (here : P offset) : ∀ i ∈ v.insertions, P i.offset := by
  intro i listed
  rcases inserts.offsets i listed with same | ⟨j, old, same⟩
  · exact same ▸ here
  · exact same ▸ placed j old

namespace Descends

variable {P : Nat → Prop} (descends : t.Descends u) (pristine : t.IsPristine) (laidOut : t.IsLaidOut)
include descends

/-- Bodies are those that were read. -/
theorem welcomes_declarationPlace (welcomes : t.Welcomes P) {function : NodeId} {body : FunctionBody}
    (found : u.blockBody function = .ok body) : P (u.declarationPlace body).1 := by
  obtain ⟨f, kind, here⟩ := descends.function_of_blockBody found
  obtain ⟨n, node, isFunction⟩ := Option.map_eq_some_iff.mp kind
  rw [descends.places.text.declarationPlace]
  exact welcomes.declaration _ n f node isFunction body here

include laidOut

/-- The module is the one that was read, and so is the end of its prologue. -/
theorem welcomes_prologueEnd (welcomes : t.WelcomesImports P) {o : Nat} (found : u.prologueEnd? = some o) : P (t.endOfLineTrivia o) := by
  obtain ⟨n, m, root, kind, hashbang, directives⟩ := laidOut.isModule
  have before : t.kind? Tree.root = some (.module m) := by
    rw [← kind]
    exact congrArg (Option.map (·.kind)) root
  obtain ⟨now, after, becomes⟩ := descends.becomes _ _ before
  cases becomes
  have parts : (m.directivesEnd <|> m.hashbangEnd) = some o := by
    simpa [prologueEnd?, module?, after] using found
  cases last : m.directivesEnd with
  | none =>
      rw [last, hashbang] at parts
      exact welcomes.hashbangEnd o parts
  | some last' =>
      rw [last] at parts
      exact welcomes.directivesEnd o (directives o (last.trans parts))

include pristine

/-- The imports behind which a new one goes were read. -/
theorem welcomes_leadingImportsEnd (welcomes : t.WelcomesImports P) {o : Nat}
    (found : u.leadingImportsEnd? = some o) : P o := by
  obtain ⟨last, leading, rfl⟩ := Option.map_eq_some_iff.mp found
  rcases mem_lastLeadingImport? leading with none | ⟨id, listed, isImport, solid, rfl⟩
  · exact absurd none (Option.not_mem_none _)
  have old : id.index < t.size := by
    by_contra outside
    rw [descends.places.isEmpty id (Nat.le_of_not_lt outside)] at solid
    cases solid
  obtain ⟨i, isImport⟩ := Option.isSome_iff_exists.mp isImport
  obtain ⟨-, j, -, was, -⟩ := descends.import_of_old pristine isImport old
  obtain ⟨n, node, kind, parent, span⟩ :=
    laidOut.exists_of_mem_imports (mem_imports.mpr ⟨descends.mem_topLevel_of_old listed old, was⟩)
  rw [descends.places.text.endOfLineTrivia, descends.places.spanOf id old, span]
  exact welcomes.behindImport _ n j node kind parent

theorem welcomes_importPlace (welcomes : t.WelcomesImports P) : P u.importPlace.1 := by
  unfold importPlace
  cases found : u.leadingImportsEnd? with
  | some offset => exact descends.welcomes_leadingImportsEnd pristine laidOut welcomes found
  | none =>
      cases behind : u.prologueEnd? with
      | some offset =>
          dsimp only
          rw [descends.places.text.endOfLineTrivia]
          exact descends.welcomes_prologueEnd laidOut welcomes behind
      | none => exact welcomes.start

/-- An edit puts its text where one is welcome in the tree that was read. -/
theorem offset_of_mem_edit (welcomes : t.Welcomes P) (placed : ∀ i ∈ u.insertions, P i.offset) (e : Edit) :
    ∀ i ∈ (u.edit e).insertions, P i.offset := by
  refine edit_cases (motive := fun _ v => ∀ i ∈ v.insertions, P i.offset) u (fun _ => placed) ?_ ?_ ?_ ?_ ?_ e
  · intro id name v edited
    obtain ⟨i, -, -, rfl⟩ := rename_eq edited
    exact placed
  · intro p names v edited
    obtain ⟨-, -, -, rfl⟩ := addImportNames_eq edited
    rwa [insertions_foldl_addImportedName]
  · intro module names
    rw [insertImport_eq, insertions_foldl_addImportedName]
    exact (inserts_withImport (descends.root_lt pristine) module).offset_of_mem placed
      (descends.welcomes_importPlace pristine laidOut welcomes.toWelcomesImports)
  · intro function value setter callee id v edited
    obtain ⟨body, found, inserts⟩ := descends.inserts_state pristine edited
    exact inserts.offset_of_mem placed (descends.welcomes_declarationPlace welcomes found)
  · intro function name id v edited
    obtain ⟨body, found, inserts⟩ := descends.inserts_null pristine edited
    exact inserts.offset_of_mem placed (descends.welcomes_declarationPlace welcomes found)

end Descends

/-- All edits put their texts where one is welcome in the tree that was read. -/
theorem IsPristine.offset_of_mem_editAll {P : Nat → Prop} (pristine : t.IsPristine) (laidOut : t.IsLaidOut)
    (welcomes : t.Welcomes P) (edits : List Edit) : ∀ i ∈ (t.editAll edits).insertions, P i.offset := by
  have unplaced : ∀ i ∈ t.insertions, P i.offset := by
    intro i here
    rw [pristine.insertions] at here
    cases here
  exact (editAll_induction (motive := fun u => t.Descends u ∧ ∀ i ∈ u.insertions, P i.offset)
    ⟨pristine.descends, unplaced⟩ (fun _ e both => ⟨both.1.edit pristine e,
      both.1.offset_of_mem_edit pristine laidOut welcomes both.2 e⟩) edits).2

/-- All texts that are to be inserted go into gaps of the tree that was read. -/
def PlacesIn (u t : Tree) : Prop :=
  ∀ i ∈ u.insertions, t.Receives i.offset

theorem IsPristine.placesIn_editAll (pristine : t.IsPristine) (laidOut : t.IsLaidOut) (plain : HasPlainLines t.source)
    (edits : List Edit) : (t.editAll edits).PlacesIn t :=
  pristine.offset_of_mem_editAll laidOut (laidOut.welcomes_receives plain) edits

end Tree

end BindingRepair.Script
