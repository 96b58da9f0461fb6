/-
# Printing inserted imports

Of a parsed tree into which an import was inserted, the source is printed with the text of the import at one place. It
is read back as this import, unless what stands behind it goes on with it.
-/

import BindingRepair.Proofs.Grammar.InsertedImports
import BindingRepair.Proofs.Lexer.Tiling
import BindingRepair.Proofs.Spacing

namespace BindingRepair.Script

open Text

/-! ### Texts -/

namespace InsertedImport

theorem text_listed {names : List String} (nonempty : names ≠ []) :
    (listed names).text = ' ' :: (", ".intercalate names).toList := by
  induction names using listed.induct with
  | case1 => exact absurd rfl nonempty
  | case2 name => simp [listed, Phrase.text, Word.text]
  | case3 name next names ih =>
      have parts : (listed (name :: next :: names)).text =
          ' ' :: (name.toList ++ ',' :: (listed (next :: names)).text) := by
        simp [listed, Phrase.text, Word.text]
      rw [parts, ih (List.cons_ne_nil next names), String.intercalate_cons_cons, String.toList_append,
        String.toList_append, List.append_assoc]
      rfl

theorem text_sentence {d : InsertedImport} (nonempty : d.names ≠ []) (lead : List Char) (semicolons : Bool) :
    (d.sentence lead semicolons).text = lead ++ ("import " ++ Tree.bracedNames d.names ++ " from " ++
      d.quote.toString ++ d.module ++ d.quote.toString ++ if semicolons then ";" else "").toList := by
  rw [sentence, phrase, Phrase.text_append, Phrase.text_append, Phrase.text_append, text_listed nonempty,
    Tree.bracedNames]
  generalize ", ".intercalate d.names = names
  cases semicolons with
  | true => simp [front, back, Phrase.text, Word.text]
  | false => simp [front, back, Phrase.text, Word.text]

end InsertedImport

namespace Tree

variable {t : Tree}

/-! ### New imports -/

/-- The import that is inserted into the tree for names of a module. -/
def importOf (t : Tree) (module : String) (names : List String) : InsertedImport where
  names := names
  quote := t.style.quote
  module := module

/-- The names that are added to an import are all that is added to it, in order. -/
theorem exists_added {p : NodeId} {i : ImportNode} (isImport : t.import? p = some i) (names : List String) :
    ∃ ids, (names.foldl (·.addImportedName p) t).import? p = some { i with added := i.added ++ ids } ∧
      ids.filterMap (names.foldl (·.addImportedName p) t).name? = names := by
  induction names generalizing t i with
  | nil => exact ⟨[], by rw [List.append_nil]; exact isImport, rfl⟩
  | cons name names ih =>
      have next := t.import?_addImportedName p name isImport
      obtain ⟨ids, added, named⟩ := ih next
      have other : (⟨t.size⟩ : NodeId) ≠ p := ne_of_kind? (import?_eq_some_iff.mp isImport)
      have new : (t.addImportedName p name).kind? ⟨t.size⟩ =
          some (.identifier { name, role := .binding { kind := .imported }, synthesized := true }) := by
        rw [t.kind?_addImportedName p name isImport, if_neg other, if_pos rfl]
      have first : ((name :: names).foldl (·.addImportedName p) t).name? ⟨t.size⟩ = some name := by
        have kept := kind?_foldl_addImportedName _ p next names other new
        rw [List.foldl_cons, name?, identifier?, kept]
        rfl
      refine ⟨⟨t.size⟩ :: ids, ?_, ?_⟩
      · rw [List.append_cons]
        exact added
      · rw [List.filterMap_cons, first]
        exact congrArg (name :: ·) named

/-- A new import is printed as its words, with the gap before it. -/
theorem synthesizedText_insertImport (t : Tree) (module : String) {names : List String} (nonempty : names ≠ [])
    (lead : String) :
    (lead ++ (t.insertImport module names).2.synthesizedText ⟨t.size⟩).toList =
      ((t.importOf module names).sentence lead.toList t.style.semicolons).text := by
  obtain ⟨ids, added, named⟩ := exists_added (t.import?_withImport module) names
  rw [← insertImport_eq] at added named
  have style : (t.insertImport module names).2.style = t.style :=
    (t.keepsPlaces_edit (.insertImport module names)).text.style
  have written : (t.importOf module names).names ≠ [] := nonempty
  rw [InsertedImport.text_sentence written, String.toList_append, synthesizedText, import?_eq_some_iff.mp added]
  simp only [addedNames, List.nil_append, named, style]
  rfl

/-- Each node of the source is what it was, and those that have come are nowhere in it. -/
theorem unmarked_insertImport (untouched : Untouched t.nodes) (module : String) (names : List String) (index : Nat)
    (n : Node) (found : (t.insertImport module names).2.nodes[index]? = some n) :
    n.kind.isUntouched = true ∨ n.span.isEmpty = true := by
  have isNode : (t.insertImport module names).2.node? ⟨index⟩ = some n := found
  rcases Nat.lt_or_ge index t.size with known | new
  · have before : t.kind? ⟨index⟩ = some t.nodes[index].kind := by
      rw [kind?, node?, Array.getElem?_eq_getElem known, Option.map_some]
    have after := t.keeps_insertImport module names _ _ before
    rw [kind?, isNode, Option.map_some, Option.some.injEq] at after
    rw [after]
    exact .inl (untouched index _ (Array.getElem?_eq_getElem known))
  · have nowhere := (t.keepsPlaces_edit (.insertImport module names)).isEmpty ⟨index⟩ new
    have span : (t.insertImport module names).2.spanOf ⟨index⟩ = n.span := by
      rw [spanOf, isNode]
      rfl
    exact .inr (span ▸ nowhere)

/-! ### The printed text -/

/-- The text of an import that is inserted into the tree. -/
def importText (t : Tree) (module : String) (names : List String) : List Char :=
  ((t.importOf module names).sentence t.importPlace.2.1.toList t.style.semicolons).text

/-- What stands behind the text of an import that is inserted into the tree. -/
def behindImport (t : Tree) : List Char :=
  t.importPlace.2.2.toList ++ dropBytes t.importPlace.1 t.source

/-- The source is printed with the import at its place. -/
theorem print_insertImport (untouched : Untouched t.nodes) (plain : t.insertions = []) (module : String)
    {names : List String} (nonempty : names ≠ []) :
    (t.insertImport module names).2.print = .ok (String.ofList
      (takeBytes t.importPlace.1 t.source ++ t.importText module names ++ t.behindImport)) := by
  have insertions : (t.insertImport module names).2.insertions =
      [⟨t.importPlace.1, ⟨t.size⟩, t.importPlace.2.1, t.importPlace.2.2⟩] := by
    rw [insertImport_eq, insertions_foldl_addImportedName]
    show t.insertions ++ _ = _
    rw [plain, List.nil_append]
  have source : (t.insertImport module names).2.source = t.source :=
    (t.keepsPlaces_edit (.insertImport module names)).text.source
  have text := t.synthesizedText_insertImport module nonempty t.importPlace.2.1
  have patch : (t.insertImport module names).2.patches = [t.importPlace.2.1 ++
      (t.insertImport module names).2.synthesizedText ⟨t.size⟩ ++ t.importPlace.2.2].map fun text =>
        ⟨Span.emptyAt t.importPlace.1, text⟩ := by
    rw [patches_of_unmarked (unmarked_insertImport untouched module names), insertions, ← mergeSort_at]
    rfl
  rw [print, patch, source, splice_at _ _ (List.cons_ne_nil _ _)]
  simp only [List.flatMap_cons, List.flatMap_nil, List.append_nil]
  rw [String.toList_append, text, behindImport, importText]
  simp only [List.append_assoc]
  rfl

/-! ### Lines of their own -/

theorem isBlank_importPlace (t : Tree) : ∀ c ∈ t.importPlace.2.1.toList, Unicode.isBlank c = true := by
  rw [importPlace_eq]
  cases t.importAnchor? with
  | some stop => exact t.isBreak_newline.blank
  | none => exact List.forall_mem_nil _

theorem endsLine_newline (t : Tree) (rest : List Char) : EndsLine (t.newline.toList ++ rest) := by
  unfold newline
  split
  · exact fun c here => Option.mem_some.mp here ▸ rfl
  · exact fun c here => Option.mem_some.mp here ▸ rfl

/-- Behind what a new import goes behind nothing but blanks and comments stands on the line. -/
def ImportsEndTheirLine (t : Tree) : Prop :=
  ∀ stop ∈ t.importAnchor?, (lineTriviaEnd? false stop (t.cursorAt stop).rest).isSome = true

/-- Then the line ends behind a new import. -/
theorem endsLine_behindImport (marks : ∀ stop ∈ t.importAnchor?, (Cursor.start t.source).Marks stop)
    (ends : t.ImportsEndTheirLine) : EndsLine t.behindImport := by
  unfold behindImport
  rw [importPlace_eq]
  cases anchor : t.importAnchor? with
  | none => exact t.endsLine_newline _
  | some stop =>
      obtain ⟨behind, found⟩ := Option.isSome_iff_exists.mp (ends stop anchor)
      obtain ⟨last, reaches, same, line⟩ := endsLineAt_lineTriviaEnd? found
      have rest := cursorAt_offset ((marks_cursorAt (marks stop anchor)).trans reaches)
      have place : t.endOfLineTrivia stop = last.offset := by rw [endOfLineTrivia, found, same, Option.getD_some]
      dsimp only
      rw [place]
      exact (congrArg (EndsLine ·.rest) rest).mpr line

end Tree

namespace Grammar

/-- Where the text or a line ends, a statement needs no semicolon. -/
theorem endsStatement_of_endsLine {offset : Nat} {rest : List Char} (ends : EndsLine rest) :
    endsStatement (Token.read ⟨offset, rest⟩) = true := by
  have atEnd (none : (skipTrivia ⟨offset, rest⟩).2.rest = []) : endsStatement (Token.read ⟨offset, rest⟩) = true := by
    have kind : (Token.read ⟨offset, rest⟩).kind = .endOfText := by
      show (Token.readAt _ (skipTrivia ⟨offset, rest⟩).2).kind = _
      unfold Token.readAt
      rw [none]
      rfl
    simp [endsStatement, kind]
  obtain ⟨closed, skipped, isSkipped, crosses⟩ := exists_isSkipped ⟨offset, rest⟩
  cases closed with
  | false => exact atEnd isSkipped.rest_eq_nil
  | true =>
      cases skipped with
      | nil =>
          have same : rest = (skipTrivia ⟨offset, rest⟩).2.rest := crosses.rest
          cases rest with
          | nil => exact atEnd same.symm
          | cons c cs =>
              -- The line ends here, so there was something to skip.
              have visible : isGapChar c = false := isGapChar_head_skipTrivia ⟨offset, c :: cs⟩ c (same ▸ rfl)
              rw [isGapChar, ends c rfl] at visible
              cases visible
      | cons c skipped =>
          have parts : rest = c :: (skipped ++ (skipTrivia ⟨offset, rest⟩).2.rest) := crosses.rest
          have line : isLineTerminator c = true := ends c (by rw [parts]; rfl)
          have newline : (Token.read ⟨offset, rest⟩).newlineBefore = true := by
            rw [Token.newlineBefore_read, crosses.newline rfl, List.any_cons, line]
            rfl
          simp [endsStatement, newline]

theorem exists_finishes {semicolons : Bool} {behind : Cursor}
    (ends : semicolons = true ∨ endsStatement (Token.read behind) = true) : ∃ stop, Finishes semicolons behind stop := by
  cases semicolons with
  | true => exact ⟨behind, rfl⟩
  | false =>
      cases here : (Token.read behind).isPunctuator ";" with
      | true => exact ⟨_, .semicolon here⟩
      | false => exact ⟨behind, .inserted here (ends.resolve_left Bool.false_ne_true)⟩

end Grammar

open Grammar in
/-- In every source that is parsed names of a module can be imported by a new declaration. It is printed at one place,
and a parser that stands before it reads it as this declaration, which binds the names in order, and then stands behind
it, if a semicolon ends it or if what stands behind it ends a statement. -/
theorem inserted_imports_stand_alone {source : String} {dialect : Dialect} {t : Tree} {module : String}
    {names : List String} (parsed : parse source dialect = .ok t) (nonempty : names ≠ [])
    (identifiers : ∀ name ∈ names, isIdentifier name = true)
    (plain : ∀ c ∈ module.toList, c ∉ ['\'', '"', '\\', '\n', '\r']) :
    (t.insertImport module names).2.print = .ok (String.ofList (takeBytes t.importPlace.1 source.toList ++
        t.importText module names ++ t.behindImport)) ∧
      ∀ (n : Nat) (c : Context) (s : State), names.length < c.bound → s.depth < maxDepth →
        ∀ place behind stop : Cursor, place.rest = t.importText module names ++ t.behindImport →
        behind = ⟨place.offset + byteLength (t.importText module names), t.behindImport⟩ →
        s.token = Token.read place → Finishes t.style.semicolons behind stop →
        ∃ s' i, derive (n + 2) .item c s = .ok () s' ∧
          (t.importOf module names).IsReadAs (s.nodes.size + 1) i ∧
          s.Adds s' ((t.importOf module names).nodes i s.nodes.size s.opened.head? s.exporting) ∧
          s'.token = Token.read stop ∧ s'.previousEnd = stop := by
  have valid : (t.importOf module names).Valid := by
    refine ⟨nonempty, identifiers, quote_of_parse parsed, fun c here => ?_⟩
    have apart := plain c here
    simp only [List.mem_cons, List.not_mem_nil, or_false, not_or] at apart
    refine ⟨?_, apart.2.2⟩
    show c ≠ t.style.quote
    rcases quote_of_parse parsed with single | double
    · exact single ▸ apart.1
    · exact double ▸ apart.2.1
  constructor
  · rw [Tree.print_insertImport (untouched_of_parse parsed) (source_of_parse parsed).2 module nonempty,
      (source_of_parse parsed).1]
  · rintro n c s bounded shallow ⟨offset, rest⟩ _ stop rfl rfl here finishes
    have fits := InsertedImport.fits_sentence valid t.isBlank_importPlace t.style.semicolons t.behindImport
    obtain ⟨mid, core, ends⟩ := endsAt_of_reads finishes (fits.reads offset)
    exact derive_import core here ends bounded shallow

/-- A new import ends somewhere, unless the source does without semicolons and goes on in the line behind the last of its
first imports, or of its prologue. -/
theorem inserted_imports_finish {source : String} {dialect : Dialect} {t : Tree} (parsed : parse source dialect = .ok t)
    (line : t.style.semicolons = true ∨ t.ImportsEndTheirLine) (offset : Nat) :
    ∃ stop, Grammar.Finishes t.style.semicolons ⟨offset, t.behindImport⟩ stop := by
  have pristine := isPristine_of_parse parsed
  obtain ⟨m, isModule, placed⟩ := pristine.descends.isModule pristine
  have marks := Tree.marks_importAnchor? (fun id solid => pristine.descends.marks_stop pristine solid) isModule placed
  exact Grammar.exists_finishes (line.imp id fun ends =>
    Grammar.endsStatement_of_endsLine (Tree.endsLine_behindImport marks ends))

end BindingRepair.Script
