/-
# Trees as they are read

Before any edit the nodes of a tree are all in its source, identifiers and imports as stretches that are not
empty, and every offset that a node names is that of a place. So wherever an edit puts a text, it is a place
in the source: blanks and comments are passed character by character.
-/

import BindingRepair.Proofs.Grammar.Grown
import BindingRepair.Proofs.Lexer.Trivia
import BindingRepair.Script.Edit

namespace BindingRepair.Script

open Text Cursor

theorem NodeKind.isIdentifier_iff {kind : NodeKind} : kind.isIdentifier = true ↔ ∃ i, kind = .identifier i := by
  cases kind <;> simp [isIdentifier]

namespace Tree

/-- The tree is as it was read. -/
structure IsPristine (t : Tree) : Prop where
  spans : ∀ id n, t.node? id = some n → n.span.On (start t.source)
  identifiers : ∀ id n i, t.node? id = some n → n.kind = .identifier i →
    n.span.start < n.span.stop ∧ i.renamedFrom = none ∧ i.synthesized = false
  splits : ∀ id n, t.node? id = some n → n.kind.isIdentifier = true → (start t.source).SplitsAt n.span.stop
  imports : ∀ id n i, t.node? id = some n → n.kind = .importDeclaration i →
    n.span.start < n.span.stop ∧ i.added = []
  placed : ∀ id kind, t.kind? id = some kind → kind.Placed (start t.source)
  named : ∀ id kind, t.kind? id = some kind → ∀ c ∈ kind.named, c.index < t.size
  isModule : ∃ m, t.kind? root = some (.module m)
  nodup : t.topLevel.Nodup
  known : ∀ id ∈ t.topLevel, id.index < t.size
  insertions : t.insertions = []

end Tree

open Grammar in
/-- A tree that has been parsed is as it was read. -/
theorem isPristine_of_parse {source : String} {dialect : Dialect} {t : Tree}
    (parsed : parse source dialect = .ok t) : t.IsPristine := by
  obtain ⟨s, finished, rfl⟩ := finished_of_parse parsed
  have first : (initialState source.toList).Grown (start source.toList) := State.grown_initialState source.toList
  have grown := finished.steps.grown first
  have untouched := finished.steps.untouched Untouched.empty
  obtain ⟨n, m, root, kind, -⟩ := finished.root
  have topLevel : (Tree.ofState source.toList dialect s).topLevel = n.children.toList := by
    simp [Tree.topLevel, Tree.childrenOf, Tree.node?, Tree.ofState, Tree.root, root]
  have closed (id : NodeId) : id ∉ s.opened := by
    rw [finished.opened]
    exact List.not_mem_nil
  exact {
    spans := fun id n found => grown.layout.span _ n found
    identifiers := fun id n i found isIdentifier => by
      have spells := grown.spells _ n i found isIdentifier
      have plain := untouched _ n found
      rw [isIdentifier] at plain
      obtain ⟨-, -, -, -, -, -, -, inText⟩ := spells
      exact ⟨(grown.spells _ n i found isIdentifier).nonempty, Option.isNone_iff_eq_none.mp plain, inText⟩
    splits := fun id n found identifier => by
      obtain ⟨i, kind⟩ := NodeKind.isIdentifier_iff.mp identifier
      obtain ⟨first, last, reaches, -, splits, span, -⟩ := grown.spells _ n i found kind
      rw [span]
      exact (reaches.trans_splits splits).at_offset
    imports := fun id n i found isImport => by
      have plain := untouched _ n found
      have before := (grown.imports _ n i found isImport).begins
      rw [isImport] at plain
      refine ⟨(grown.layout.filled _ n found (closed id)).resolve_right (Nat.ne_of_lt before), ?_⟩
      exact List.isEmpty_iff.mp plain
    placed := fun id kind found => by
      obtain ⟨n, here, rfl⟩ := Option.map_eq_some_iff.mp found
      exact grown.placed _ n here
    named := fun id kind found => by
      obtain ⟨n, here, rfl⟩ := Option.map_eq_some_iff.mp found
      exact (grown.coherent.wellScoped.inRange _ n here).named
    isModule := ⟨m, by simp [Tree.kind?, Tree.node?, Tree.ofState, Tree.root, root, kind]⟩
    nodup := by
      rw [topLevel, grown.layout.children 0 n root]
      apply (pairwise_childrenIn s.nodes ⟨0⟩).imp
      rintro a b before rfl
      exact Nat.lt_irrefl _ before
    known := fun id here => by
      rw [topLevel] at here
      exact (grown.coherent.wellScoped.inRange 0 n root).children id (Array.mem_toList_iff.mp here)
    insertions := rfl }

/-! ### Places for texts -/

namespace Tree

/-- From a place on, a place with an offset comes where the text or its line ends. -/
def EndsLineAt (place : Cursor) (behind : Nat) : Prop :=
  ∃ last, place.Reaches last ∧ last.offset = behind ∧ EndsLine last.rest

/-- Where a line ends behind a word, it ends behind the beginning of the word. -/
theorem EndsLineAt.append (word : List Char) {rest : List Char} {offset next behind : Nat}
    (there : next = offset + byteLength word) (ends : EndsLineAt ⟨next, rest⟩ behind) :
    EndsLineAt ⟨offset, word ++ rest⟩ behind := by
  obtain ⟨last, reaches, same, line⟩ := ends
  exact ⟨last, Reaches.trans ⟨word, rfl, there⟩ reaches, same, line⟩

theorem endsLineAt_self {offset behind : Nat} {cs : List Char} (ends : EndsLine cs)
    (found : some offset = some behind) : EndsLineAt ⟨offset, cs⟩ behind :=
  ⟨⟨offset, cs⟩, .refl _, Option.some.inj found, ends⟩

theorem isLineTerminator_of_newline {c : Char} (newline : c = '\n' ∨ c = '\r') : isLineTerminator c = true := by
  rcases newline with rfl | rfl
  · rfl
  · rfl

/-- Blanks and comments end where their line ends. -/
theorem endsLineAt_lineTriviaEnd? {inComment : Bool} {offset behind : Nat} {cs : List Char}
    (found : lineTriviaEnd? inComment offset cs = some behind) : EndsLineAt ⟨offset, cs⟩ behind := by
  fun_induction lineTriviaEnd? inComment offset cs with
  | case1 => cases found
  | case2 => exact endsLineAt_self .nil found
  | case3 offset rest ih => exact .append ['*', '/'] rfl (ih found)
  | case4 => cases found
  | case5 offset c rest _ _ ih => exact .append [c] rfl (ih found)
  | case6 _ offset _ rest =>
      refine .append ['/', '/'] rfl ⟨_, reaches_skipWhile _ _, Option.some.inj found, fun c here => ?_⟩
      have first := List.head?_dropWhile_not (fun c => c != '\n' && c != '\r') rest
      rw [skipWhile_eq] at here
      rw [Option.mem_def.mp here] at first
      exact isLineTerminator_of_newline (or_iff_not_imp_left.mpr (by simpa using first))
  | case7 _ offset _ rest ih => exact .append ['/', '*'] rfl (ih found)
  | case8 _ offset _ c rest _ _ blank ih =>
      have size : c.utf8Size = 1 := by
        simp only [Bool.or_eq_true, beq_iff_eq] at blank
        rcases blank with rfl | rfl
        · rfl
        · rfl
      exact .append [c] (by rw [byteLength, size]; rfl) (ih found)
  | case9 _ offset _ c rest _ _ _ newline =>
      refine endsLineAt_self (fun d here => ?_) found
      rw [Option.mem_some.mp here] at newline
      exact isLineTerminator_of_newline (by simpa using newline)
  | case10 => cases found

theorem marks_lineTriviaEnd? {inComment : Bool} {offset behind : Nat} {cs : List Char}
    (found : lineTriviaEnd? inComment offset cs = some behind) : Marks ⟨offset, cs⟩ behind := by
  obtain ⟨last, reaches, same, -⟩ := endsLineAt_lineTriviaEnd? found
  exact ⟨last, reaches, same⟩

variable {t u : Tree}

/-- The text goes on behind a place in it as the cursor there tells. -/
theorem marks_cursorAt {offset : Nat} (marks : (start t.source).Marks offset) :
    (start t.source).Reaches (t.cursorAt offset) := by
  obtain ⟨place, ⟨word, parts, there⟩, rfl⟩ := marks
  have whole : t.source = word ++ place.rest := parts
  have length : place.offset = byteLength word := there.trans (Nat.zero_add _)
  refine ⟨word, ?_, there⟩
  rw [cursorAt, length, whole, dropBytes_byteLength]
  rfl

theorem marks_endOfLineTrivia {offset : Nat} (marks : (start t.source).Marks offset) :
    (start t.source).Marks (t.endOfLineTrivia offset) := by
  unfold endOfLineTrivia
  cases found : lineTriviaEnd? false offset (t.cursorAt offset).rest with
  | none => exact marks
  | some behind =>
      obtain ⟨place, reaches, same⟩ := marks_lineTriviaEnd? found
      exact ⟨place, (marks_cursorAt marks).trans reaches, same⟩

/-- A declaration in a body goes behind its directives or its opening brace, there or where the line ends, or in front
of its first statement. -/
theorem declarationPlace_cases {P : Nat → Prop} {body : FunctionBody} (anchor : P body.anchor)
    (lineEnd : P (t.endOfLineTrivia body.anchor)) (first : ∀ o ∈ body.firstStatement, P o) :
    P (t.declarationPlace body).1 := by
  unfold declarationPlace
  cases statement : body.firstStatement with
  | none =>
      dsimp only
      split
      · exact anchor
      · exact lineEnd
  | some offset =>
      dsimp only
      split
      · exact first offset statement
      · exact lineEnd

/-- A declaration in a body goes to a place. -/
theorem marks_declarationPlace {body : FunctionBody} (placed : body.Placed (start t.source)) :
    (start t.source).Marks (t.declarationPlace body).1 := by
  have anchor : (start t.source).Marks body.anchor := by
    unfold FunctionBody.anchor
    cases found : body.directivesEnd with
    | none => exact placed.opening
    | some offset => exact placed.directivesEnd offset found
  exact declarationPlace_cases anchor (marks_endOfLineTrivia anchor) placed.firstStatement

/-- The last of the first imports is an import in the source. -/
theorem mem_lastLeadingImport? {directivesEnd last : Option Nat} {ids : List NodeId} {o : Nat}
    (found : o ∈ t.lastLeadingImport? directivesEnd last ids) : o ∈ last ∨
      ∃ id ∈ ids, (t.import? id).isSome = true ∧ (t.spanOf id).isEmpty = false ∧ o = (t.spanOf id).stop := by
  induction ids generalizing last with
  | nil => exact .inl found
  | cons id ids ih =>
      have later {last : Option Nat} (found : o ∈ t.lastLeadingImport? directivesEnd last ids) : o ∈ last ∨
          ∃ other ∈ id :: ids, (t.import? other).isSome = true ∧ (t.spanOf other).isEmpty = false ∧
            o = (t.spanOf other).stop := by
        rcases ih found with here | ⟨other, listed, rest⟩
        · exact .inl here
        · exact .inr ⟨other, List.mem_cons_of_mem id listed, rest⟩
      unfold lastLeadingImport? at found
      dsimp only at found
      split at found
      · exact later found
      · split at found
        · rename_i isImport
          cases empty : (t.spanOf id).isEmpty with
          | true =>
              rw [empty, if_pos rfl] at found
              exact later found
          | false =>
              rw [empty, if_neg Bool.false_ne_true] at found
              rcases later found with here | behind
              · exact .inr ⟨id, List.mem_cons_self, isImport, empty, (Option.mem_some.mp here).symm⟩
              · exact .inr behind
        · exact .inl found

/-- The end of the last of the first imports, or else of the prologue, behind which a new import goes. -/
def importAnchor? (t : Tree) : Option Nat :=
  t.lastLeadingImport? (t.module?.bind (·.directivesEnd)) none t.topLevel <|> t.prologueEnd?

/-- A new import goes to the end of the line of what it goes behind, or else to the beginning. -/
theorem importPlace_eq (t : Tree) : t.importPlace = match t.importAnchor? with
    | some stop => (t.endOfLineTrivia stop, t.newline, "")
    | none => (0, "", t.newline) := by
  unfold importPlace leadingImportsEnd? importAnchor?
  cases t.lastLeadingImport? (t.module?.bind (·.directivesEnd)) none t.topLevel with
  | some stop => rfl
  | none => cases t.prologueEnd? <;> rfl

section ImportPlace

variable (stops : ∀ id, (t.spanOf id).isEmpty = false → (start t.source).Marks (t.spanOf id).stop)
  {m : ModuleNode} (isModule : t.kind? root = some (.module m)) (placed : (NodeKind.module m).Placed (start t.source))
include stops isModule placed

/-- What a new import goes behind ends at a place. -/
theorem marks_importAnchor? : ∀ stop ∈ t.importAnchor?, (start t.source).Marks stop := by
  intro stop here
  unfold importAnchor? at here
  cases found : t.lastLeadingImport? (t.module?.bind (·.directivesEnd)) none t.topLevel with
  | some last =>
      rw [found] at here
      obtain rfl : last = stop := Option.some.inj here
      rcases mem_lastLeadingImport? found with none | ⟨id, -, -, solid, rfl⟩
      · exact absurd none (Option.not_mem_none _)
      · exact stops id solid
  | none =>
      rw [found] at here
      have prologue : (m.directivesEnd <|> m.hashbangEnd) = some stop := by
        simpa [prologueEnd?, module?, isModule] using here
      cases directives : m.directivesEnd with
      | none => exact placed.1 stop (by simpa [directives] using prologue)
      | some last =>
          rw [directives] at prologue
          exact placed.2 stop (directives.trans prologue)

/-- A new import goes to a place. -/
theorem marks_importPlace : (start t.source).Marks t.importPlace.1 := by
  rw [importPlace_eq]
  cases anchor : t.importAnchor? with
  | some stop => exact marks_endOfLineTrivia (marks_importAnchor? stops isModule placed stop anchor)
  | none => exact (Reaches.refl _).marks

end ImportPlace

end Tree

end BindingRepair.Script
