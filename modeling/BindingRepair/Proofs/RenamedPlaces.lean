/-
# Places of renames

A position denotes a place of its line, or the place where the line behind it starts: the terminator of a
line counts to the line, so its last column is the first place of the next one. A rename hits a binding
that stands at the place in the text.
-/

import BindingRepair.Proofs.Freshness
import BindingRepair.Proofs.Positions

namespace BindingRepair

namespace Text.LineTable

/-! ### Places in a line -/

/-- As many code units as the column counts stand before the place that is found. -/
theorem exists_word_of_offsetInLine {offset column place : Nat} {chars : List Char}
    (found : offsetInLine offset column chars = some place) :
    ∃ word rest, chars = word ++ rest ∧ column = utf16Length word ∧ place = offset + byteLength word := by
  induction chars generalizing offset column with
  | nil =>
      rw [offsetInLine] at found
      split at found
      · rename_i first
        exact ⟨[], [], rfl, first, (Option.some.inj found).symm⟩
      · cases found
  | cons c cs ih =>
      rw [offsetInLine] at found
      split at found
      · rename_i first
        exact ⟨[], c :: cs, rfl, first, (Option.some.inj found).symm⟩
      · split at found
        · cases found
        · rename_i wide
          obtain ⟨word, rest, rfl, column, place⟩ := ih found
          refine ⟨c :: word, rest, rfl, ?_, ?_⟩
          · rw [utf16Length, ← column]
            omega
          · rw [byteLength, place, Nat.add_assoc]

theorem takeBytes_prefix (n : Nat) (chars : List Char) : takeBytes n chars <+: chars := by
  induction chars generalizing n with
  | nil => exact List.prefix_rfl
  | cons c cs ih =>
      rw [takeBytes]
      split
      · exact List.nil_prefix
      · exact List.prefix_cons_inj c |>.mpr (ih _)

/-! ### Lines ascend -/

theorem pairwise_startsFrom (offset : Nat) (chars : List Char) :
    (startsFrom offset chars).Pairwise (· < ·) := by
  fun_induction startsFrom offset chars with
  | case1 => exact .nil
  | case2 offset cs ih => exact ih.cons fun _ further => lt_of_mem_startsFrom further
  | case3 offset c cs _ _ ih => exact ih.cons fun _ further => lt_of_mem_startsFrom further
  | case4 offset c cs _ _ ih => exact ih

variable {text : List Char} {line start place : Nat}

theorem pairwise_starts (text : List Char) : (ofText text).starts.Pairwise (· < ·) :=
  (pairwise_startsFrom 0 text).cons fun _ further => lt_of_mem_startsFrom further

/-- The lines before and behind a line. -/
theorem exists_parts_of_start? {t : LineTable} (found : t.start? line = some start) :
    ∃ before behind, t.starts = before ++ start :: behind ∧ line = before.length + 1 ∧
      t.start? (line + 1) = behind.head? := by
  rw [start?] at found
  split at found
  · cases found
  · rename_i counted
    obtain ⟨bounded, here⟩ := List.getElem?_eq_some_iff.mp found
    refine ⟨t.starts.take (line - 1), t.starts.drop line, ?_, ?_, ?_⟩
    · have parts := List.drop_eq_getElem_cons bounded
      rw [here, Nat.sub_add_cancel (Nat.pos_of_ne_zero counted)] at parts
      rw [← parts, List.take_append_drop]
    · rw [List.length_take, Nat.min_eq_left (Nat.le_of_lt bounded),
        Nat.sub_add_cancel (Nat.pos_of_ne_zero counted)]
    · rw [start?, if_neg (Nat.succ_ne_zero line), Nat.add_sub_cancel, List.head?_drop]

/-- A place lies on the last line that does not start behind it. -/
theorem lineAt_eq (found : (ofText text).start? line = some start) (low : start ≤ place)
    (high : ∀ next, (ofText text).start? (line + 1) = some next → place < next) :
    (ofText text).lineAt place = line := by
  obtain ⟨before, behind, parts, rfl, next⟩ := exists_parts_of_start? found
  let early (start : Nat) : Bool := start ≤ place
  have ascending := pairwise_starts text
  rw [parts] at ascending
  have earlier : ∀ s ∈ before, early s = true := by
    intro s here
    have less : s < start := (List.pairwise_append.mp ascending).2.2 s here start List.mem_cons_self
    exact decide_eq_true ((Nat.le_of_lt less).trans low)
  have later : behind.takeWhile early = [] := by
    cases behind with
    | nil => rfl
    | cons s behind => exact List.takeWhile_cons_of_neg (by simpa [early] using high s next)
  have here : early start = true := decide_eq_true low
  change ((ofText text).starts.takeWhile early).length = before.length + 1
  rw [parts, List.takeWhile_append_of_pos earlier, List.takeWhile_cons_of_pos here, later,
    List.length_append, List.length_singleton]

/-! ### What a position denotes -/

/-- The characters of a line, its terminator included. -/
def charsOfLine (text : List Char) (line : Nat) : List Char :=
  match (ofText text).start? line with
  | some start => slice text start (((ofText text).start? (line + 1)).getD (byteLength text))
  | none => []

/-- A line ends where the next one starts. -/
theorem byteLength_charsOfLine {next : Nat} (found : (ofText text).start? line = some start)
    (further : (ofText text).start? (line + 1) = some next) :
    start + byteLength (charsOfLine text line) = next := by
  obtain ⟨before, behind, parts, rfl, head⟩ := exists_parts_of_start? found
  rw [head] at further
  obtain ⟨behind, rfl⟩ : ∃ more, behind = next :: more := List.head?_eq_some_iff.mp further
  have marks : (Cursor.start text).Marks start := mem_starts_marks (by simp [parts])
  have marksNext : (Cursor.start text).Marks next := mem_starts_marks (by simp [parts])
  have ascending := pairwise_starts text
  rw [parts] at ascending
  have ordered : start < next :=
    List.rel_of_pairwise_cons (List.pairwise_append.mp ascending).2.1 List.mem_cons_self
  obtain ⟨first, reachesFirst, rfl⟩ := marks
  obtain ⟨second, reachesSecond, rfl⟩ := marksNext
  obtain ⟨word, rest, offset⟩ := reachesFirst.of_offset_le reachesSecond (Nat.le_of_lt ordered)
  have chars : charsOfLine text (before.length + 1) = word := by
    rw [charsOfLine, found, head, further, Option.getD_some]
    dsimp only
    rw [reachesFirst.slice_eq ⟨word, rest, offset⟩, Cursor.charsTo_of_append rest offset]
  rw [chars, offset]

/-- A position is that of a place, or its column counts the whole line and the place is the start of the
next one. -/
def Meets (text : List Char) (p : Position) (place : Nat) : Prop :=
  (ofText text).position text place = p ∨
    p.line ≠ 0 ∧ (ofText text).start? (p.line + 1) = some place ∧
      p.column = utf16Length (charsOfLine text p.line)

theorem exists_word_of_offset? {p : Position} (found : (ofText text).offset? text p = some place) :
    ∃ start word rest, (ofText text).start? p.line = some start ∧ charsOfLine text p.line = word ++ rest ∧
      p.column = utf16Length word ∧ place = start + byteLength word := by
  rw [offset?] at found
  obtain ⟨start, line, found⟩ := Option.bind_eq_some_iff.mp found
  obtain ⟨word, rest, parts, column, there⟩ := exists_word_of_offsetInLine found
  refine ⟨start, word, rest, line, ?_, column, there⟩
  rw [charsOfLine, line]
  exact parts

/-- A position behind the end of its line denotes nothing. -/
theorem offset?_eq_none_of_length_lt {p : Position} (behind : utf16Length (charsOfLine text p.line) < p.column) :
    (ofText text).offset? text p = none := by
  cases found : (ofText text).offset? text p with
  | none => rfl
  | some place =>
      obtain ⟨start, word, rest, -, parts, column, -⟩ := exists_word_of_offset? found
      rw [parts, utf16Length_append] at behind
      omega

/-- A line stands in the text where it starts. -/
theorem exists_front_of_charsOfLine (found : (ofText text).start? line = some start) :
    ∃ front behind, text = front ++ charsOfLine text line ++ behind ∧ start = byteLength front := by
  obtain ⟨before, behind, parts, -, -⟩ := exists_parts_of_start? found
  obtain ⟨first, ⟨front, whole, offset⟩, rfl⟩ : (Cursor.start text).Marks start :=
    mem_starts_marks (by simp [parts])
  rw [Cursor.start, Nat.zero_add] at offset
  obtain rfl : text = front ++ first.rest := whole
  obtain ⟨rest, cut⟩ : charsOfLine (front ++ first.rest) line <+: first.rest := by
    rw [charsOfLine, found]
    dsimp only
    rw [slice, offset, dropBytes_byteLength]
    exact takeBytes_prefix ..
  exact ⟨front, rest, by rw [List.append_assoc, cut], offset⟩

theorem meets_of_offset? {p : Position} (found : (ofText text).offset? text p = some place) :
    Meets text p place := by
  obtain ⟨start, word, rest, line, parts, column, rfl⟩ := exists_word_of_offset? found
  by_cases next : (ofText text).start? (p.line + 1) = some (start + byteLength word)
  · have length := byteLength_charsOfLine line next
    rw [parts, byteLength_append] at length
    obtain rfl : rest = [] := by
      cases rest with
      | nil => rfl
      | cons c cs => exact absurd (by omega) (byteLength_cons_ne_zero c cs)
    have counted : p.line ≠ 0 := by
      intro zero
      rw [start?, if_pos zero] at line
      cases line
    exact .inr ⟨counted, next, by rw [parts, List.append_nil, column]⟩
  · have onLine : (ofText text).lineAt (start + byteLength word) = p.line := by
      apply lineAt_eq line (Nat.le_add_right ..)
      intro further there
      have length := byteLength_charsOfLine line there
      rw [parts, byteLength_append] at length
      have different : start + byteLength word ≠ further := fun same => next (same ▸ there)
      omega
    obtain ⟨front, behind, whole, rfl⟩ := exists_front_of_charsOfLine line
    have stands : slice text (byteLength front) (byteLength front + byteLength word) = word := by
      rw [whole, parts, ← List.append_assoc, List.append_assoc, slice_append]
    left
    rw [position, startOfLineAt, onLine, line, Option.getD_some, stands, ← column]

/-- A position denotes a place of the text that it meets, and no other. -/
theorem offset?_eq_some_iff {p : Position} :
    (ofText text).offset? text p = some place ↔ (Cursor.start text).Marks place ∧ Meets text p place := by
  constructor
  · intro found
    obtain ⟨start, word, rest, line, parts, -, rfl⟩ := exists_word_of_offset? found
    obtain ⟨front, behind, whole, rfl⟩ := exists_front_of_charsOfLine line
    refine ⟨⟨⟨byteLength front + byteLength word, rest ++ behind⟩, ⟨front ++ word, ?_, ?_⟩, rfl⟩,
      meets_of_offset? found⟩
    · rw [Cursor.start, whole, parts]
      simp only [List.append_assoc]
    · rw [byteLength_append, Cursor.start, Nat.zero_add]
  · rintro ⟨⟨c, reaches, rfl⟩, rfl | ⟨counted, next, column⟩⟩
    · exact offset?_position reaches
    · obtain ⟨start, line⟩ : ∃ start, (ofText text).start? p.line = some start := by
        rw [start?, if_neg (Nat.succ_ne_zero _), Nat.add_sub_cancel] at next
        rw [start?, if_neg counted]
        have bounded := (List.getElem?_eq_some_iff.mp next).choose
        exact ⟨_, List.getElem?_eq_getElem (Nat.lt_of_le_of_lt (Nat.sub_le ..) bounded)⟩
      have whole := offsetInLine_append start (charsOfLine text p.line) []
      rw [List.append_nil, byteLength_charsOfLine line next, ← column] at whole
      rw [← whole, charsOfLine, line, offset?, line]
      rfl

/-- The third column of a line of one letter and a line feed is where the next line starts. -/
example : (ofText "a\nb".toList).offset? "a\nb".toList ⟨1, 2⟩ = some 2 := by
  decide

end Text.LineTable

open Text Script Script.Tree

/-! ### Fixes as edits -/

namespace Progress

variable {o : RepairOptions} {p next : Progress} {written : List String}

/-- A fix that is carried out makes one edit. -/
theorem exists_edit_of_apply {fix : Fix} (ok : p.apply o fix = .ok (written, next)) :
    ∃ e, next.tree = p.tree.edit e := by
  cases fix with
  | importMerge module names onlyIfImported =>
      obtain ⟨-, ⟨id, -, edited, -⟩ | ⟨-, -, inserted, -⟩⟩ := mergeImport_ok ok
      · exact ⟨.addImportNames id written, by rw [edit, edited, orKept]⟩
      · exact ⟨.insertImport module written, inserted⟩
  | pairedDeclaration value setter =>
      obtain ⟨component, scope, id, freshValue, freshSetter, -, -, -, -, -, edited, -⟩ := declarePair_ok ok
      exact ⟨.declareState component freshValue freshSetter o.statePrimitive, by rw [edit, edited]; rfl⟩
  | singleDeclaration name =>
      obtain ⟨component, scope, id, fresh, -, -, -, -, edited, -⟩ := declareSingle_ok ok
      exact ⟨.declareNull component fresh, by rw [edit, edited]; rfl⟩
  | rename position name =>
      obtain ⟨offset, id, fresh, -, -, -, -, -, -, -, edited, -⟩ := rename_ok ok
      exact ⟨.rename id fresh, by rw [edit, edited, orKept]⟩

/-- What fixes make of a tree is a history of edits. -/
theorem exists_edits_of_applyAll (o : RepairOptions) (p : Progress) (fixes : List PlannedFix) :
    ∃ edits, (applyAll o p fixes).2.tree = p.tree.editAll edits := by
  induction fixes generalizing p with
  | nil => exact ⟨[], rfl⟩
  | cons planned rest ih =>
      unfold applyAll
      dsimp only
      cases result : p.apply o planned.fix with
      | error reason => exact ih p
      | ok found =>
          obtain ⟨written, next⟩ := found
          obtain ⟨e, first⟩ := exists_edit_of_apply result
          obtain ⟨edits, others⟩ := ih next
          exact ⟨e :: edits, by rw [others, first]; rfl⟩

/-- The outcome of a fix is what it comes to after the fixes before it. -/
theorem exists_before_of_mem_zip {fixes : List PlannedFix} {planned : PlannedFix} {outcome : FixOutcome}
    (here : (planned, outcome) ∈ fixes.zip (applyAll o p fixes).1) :
    ∃ before, outcome = Progress.outcome planned ((applyAll o p before).2.apply o planned.fix) := by
  induction fixes generalizing p with
  | nil => cases here
  | cons first rest ih =>
      unfold applyAll at here
      dsimp only at here
      rcases List.mem_cons.mp here with same | later
      · cases same
        exact ⟨[], rfl⟩
      · obtain ⟨before, same⟩ := ih later
        exact ⟨first :: before, same⟩

end Progress

theorem Script.Tree.keepsPlaces_editAll (t : Tree) (edits : List Edit) : t.KeepsPlaces (t.editAll edits) :=
  editAll_induction (motive := t.KeepsPlaces) (.refl t) (fun u e kept => kept.trans (u.keepsPlaces_edit e)) edits

theorem Script.lines_of_parse {source : String} {dialect : Dialect} {t : Tree}
    (parsed : parse source dialect = .ok t) : t.lines = LineTable.ofText source.toList := by
  obtain ⟨s, -, rfl⟩ := finished_of_parse parsed
  rfl

/-! ### What a rename hits -/

/-- A binding of a name that is not marked as exported and that no reference refers to. -/
structure Script.Tree.IsUnused (t : Tree) (id : NodeId) (name : String) : Prop where
  named : t.name? id = some name
  unexported : ∃ site, (t.identifier? id).bind (·.site?) = some site ∧ site.exported = false
  unreferenced : t.isReferenced id = false

/-- A rename that is applied hits a binding in the text that its position meets. When its turn comes, the
binding has the name and is unused. -/
theorem renames_meet_their_places {source : String} {dialect : Dialect} {t : Tree}
    (parsed : parse source dialect = .ok t) (plan : FixPlan) (o : RepairOptions) :
    ∀ planned outcome, (planned, outcome) ∈ plan.inPassOrder.zip (t.carryOut plan o).1 →
      ∀ position name, planned.fix = .rename position name → outcome.status = .applied →
        ∃ edits id, (t.editAll edits).IsUnused id name ∧ id.index < t.size ∧
          LineTable.Meets source.toList position (t.spanOf id).start := by
  intro planned outcome here position name fix applied
  obtain ⟨before, rfl⟩ := Progress.exists_before_of_mem_zip here
  obtain ⟨edits, history⟩ := Progress.exists_edits_of_applyAll o { tree := t } before
  cases result : (Progress.applyAll o { tree := t } before).2.apply o planned.fix with
  | error reason =>
      rw [result] at applied
      cases applied
  | ok found =>
      obtain ⟨written, next⟩ := found
      rw [fix] at result
      obtain ⟨offset, id, fresh, place, listed, named, unexported, unreferenced, -⟩ := Progress.rename_ok result
      obtain ⟨i, -, -, start, inText⟩ := of_mem_bindingsAt listed
      rw [history] at place named unexported unreferenced start inText
      have places := t.keepsPlaces_editAll edits
      have bounded : id.index < t.size := by
        by_contra outside
        rw [places.isEmpty id (Nat.le_of_not_lt outside)] at inText
        cases inText
      refine ⟨edits, id, ⟨named, unexported, unreferenced⟩, bounded, ?_⟩
      rw [places.text.offset?, Tree.offset?, lines_of_parse parsed, (source_of_parse parsed).1] at place
      rw [← places.spanOf id bounded, start]
      exact LineTable.meets_of_offset? place

end BindingRepair
