/-
# Between two tokens

Blanks and comments behind a token end where the next token begins. A place that is found by passing blanks
and comments up to the end of a line lies before the next token, provided that no comment behind two slashes holds
a line separator or a paragraph separator, which end its line as well.
-/

import BindingRepair.Proofs.Lexer.Spelling
import BindingRepair.Script.Edit

namespace BindingRepair.Script

open Text

/-- Where the next token behind a place begins. -/
def gapEnd (place : Cursor) : Nat :=
  (skipTrivia place).2.offset

theorem le_gapEnd (place : Cursor) : place.offset ≤ gapEnd place :=
  (reaches_skipTrivia place).offset_le

theorem Token.start_read (place : Cursor) : (Token.read place).start = gapEnd place :=
  congrArg Cursor.offset (Token.first_readAt _ _)

/-- The text holds neither line separators nor paragraph separators. -/
def HasPlainLines (text : List Char) : Prop :=
  '\u2028' ∉ text ∧ '\u2029' ∉ text

instance (text : List Char) : Decidable (HasPlainLines text) :=
  inferInstanceAs (Decidable (_ ∧ _))

namespace HasPlainLines

variable {second : List Char} {c : Char}

theorem mono {part : List Char} (sub : part ⊆ second) (plain : HasPlainLines second) : HasPlainLines part :=
  ⟨fun here => plain.1 (sub here), fun here => plain.2 (sub here)⟩

theorem of_append (first : List Char) (plain : HasPlainLines (first ++ second)) : HasPlainLines second :=
  plain.mono (List.subset_append_right first second)

theorem tail (plain : HasPlainLines (c :: second)) : HasPlainLines second :=
  of_append [c] plain

/-- Only line feeds and carriage returns end lines. -/
theorem isLineTerminator_head (plain : HasPlainLines (c :: second)) :
    isLineTerminator c = (c == '\n' || c == '\r') := by
  have line : c ≠ '\u2028' := fun is => plain.1 (is ▸ List.mem_cons_self)
  have paragraph : c ≠ '\u2029' := fun is => plain.2 (is ▸ List.mem_cons_self)
  rw [isLineTerminator, beq_eq_false_iff_ne.mpr line, beq_eq_false_iff_ne.mpr paragraph, Bool.or_false, Bool.or_false]

end HasPlainLines

/-- A comment up to the end of the line does not end before the line feed or carriage return, unless a separator stands
in it. -/
theorem skipWhile_le_triviaEnd (newline : Bool) (offset : Nat) {cs : List Char}
    (plain : HasPlainLines (cs.takeWhile fun c => c != '\n' && c != '\r')) :
    (Cursor.skipWhile (fun c => c != '\n' && c != '\r') ⟨offset, cs⟩).offset ≤
      (triviaEnd .lineComment newline offset cs).2.offset := by
  induction cs generalizing offset with
  | nil => exact (reaches_triviaEnd _ _ _ _).offset_le
  | cons c cs ih =>
      unfold Cursor.skipWhile at ih ⊢
      dsimp only [Cursor.skipWhile.go]
      split
      · rename_i inside
        rw [List.takeWhile_cons, if_pos inside] at plain
        have other : isLineTerminator c = false := by
          rw [plain.isLineTerminator_head]
          simpa using inside
        rw [triviaEnd_lineComment_cons, if_neg (Bool.eq_false_iff.mp other)]
        exact ih _ plain.tail
      · exact (reaches_triviaEnd _ _ _ _).offset_le

/-- From an offset on, the text up to another ends in a comment behind two slashes in which a line separator or a
paragraph separator has ended the line. -/
def HidesLineEnd (offset behind : Nat) (cs : List Char) : Prop :=
  ∃ lead comment rest, cs = lead ++ '/' :: '/' :: (comment ++ rest) ∧
    behind = offset + byteLength (lead ++ '/' :: '/' :: comment) ∧ ¬ HasPlainLines comment

namespace HidesLineEnd

variable {offset behind : Nat} {cs : List Char}

/-- More text stands in front. -/
theorem append (word : List Char) {inside : Nat} (there : inside = offset + byteLength word)
    (hides : HidesLineEnd inside behind cs) : HidesLineEnd offset behind (word ++ cs) := by
  obtain ⟨lead, comment, rest, rfl, rfl, separated⟩ := hides
  refine ⟨word ++ lead, comment, rest, (List.append_assoc ..).symm, ?_, separated⟩
  rw [there, List.append_assoc, byteLength_append word, Nat.add_assoc]

theorem not_plain (hides : HidesLineEnd offset behind cs) : ¬ HasPlainLines cs := by
  obtain ⟨lead, comment, rest, rfl, -, separated⟩ := hides
  refine fun plain => separated (plain.mono fun c here => ?_)
  exact List.mem_append_right lead (.tail _ (.tail _ (List.mem_append_left rest here)))

end HidesLineEnd

/-- What ends a line behind an offset lies before the next token, unless a comment hides the end of a line. -/
theorem lineTriviaEnd?_le (inner newline : Bool) {inComment : Bool} {offset behind : Nat} {cs : List Char}
    (visible : ¬ HidesLineEnd offset behind cs) (found : Tree.lineTriviaEnd? inComment offset cs = some behind) :
    behind ≤ (triviaEnd (if inComment then .blockComment inner else .blanks) newline offset cs).2.offset := by
  fun_induction Tree.lineTriviaEnd? inComment offset cs generalizing inner newline with
  | case1 => cases found
  | case2 => exact Option.some.inj found ▸ (reaches_triviaEnd _ _ _ _).offset_le
  | case3 offset rest ih =>
      rw [if_pos rfl]
      exact ih inner _ (fun hides => visible (hides.append ['*', '/'] rfl)) found
  | case4 => cases found
  | case5 offset c rest inside _ ih =>
      rw [if_pos rfl, triviaEnd_blockComment_cons inside]
      exact ih _ _ (fun hides => visible (hides.append [c] rfl)) found
  | case6 _ offset outside rest =>
      rw [if_neg outside, ← Option.some.inj found]
      refine skipWhile_le_triviaEnd _ _ (Decidable.byContradiction fun separated => visible ?_)
      refine ⟨[], rest.takeWhile fun c => c != '\n' && c != '\r', rest.dropWhile fun c => c != '\n' && c != '\r',
        ?_, ?_, separated⟩
      · rw [List.takeWhile_append_dropWhile]
        rfl
      · rw [← Option.some.inj found, Cursor.skipWhile_eq, Nat.add_assoc]
        exact congrArg (offset + ·) (byteLength_append ['/', '/'] _).symm
  | case7 _ offset outside rest ih =>
      rw [if_neg outside]
      exact ih _ _ (fun hides => visible (hides.append ['/', '*'] rfl)) found
  | case8 _ offset outside c rest _ _ blank ih =>
      rw [Bool.or_eq_true, beq_iff_eq, beq_iff_eq] at blank
      have next : triviaEnd .blanks newline offset (c :: rest) = triviaEnd .blanks newline (offset + 1) rest := by
        rcases blank with rfl | rfl
        · rfl
        · rfl
      have size : offset + 1 = offset + byteLength [c] := by
        rcases blank with rfl | rfl
        · rfl
        · rfl
      rw [if_neg outside, next]
      exact ih inner _ (fun hides => visible (hides.append [c] size)) found
  | case9 => exact Option.some.inj found ▸ (reaches_triviaEnd _ _ _ _).offset_le
  | case10 => cases found

/-- Where a line ends behind a place, no token has begun, unless a comment hides the end of a line. -/
theorem endOfLineTrivia_le_gapEnd {t : Tree} {offset : Nat}
    (visible : ¬ HidesLineEnd offset (t.endOfLineTrivia offset) (t.cursorAt offset).rest) :
    t.endOfLineTrivia offset ≤ gapEnd (t.cursorAt offset) := by
  unfold Tree.endOfLineTrivia at visible ⊢
  cases found : Tree.lineTriviaEnd? false offset (t.cursorAt offset).rest with
  | none => exact le_gapEnd (t.cursorAt offset)
  | some behind =>
      rw [found, Option.getD_some] at visible
      have blanks := lineTriviaEnd?_le false false visible found
      rw [gapEnd, skipTrivia]
      split
      · -- A line that begins with a hash and an exclamation mark holds neither blanks nor comments.
        rename_i hashbang
        obtain ⟨-, begins⟩ := Bool.and_eq_true_iff.mp hashbang
        obtain ⟨more, rest⟩ := List.isPrefixOf_iff_prefix.mp begins
        rw [← rest] at found
        cases found
      · exact blanks

end BindingRepair.Script
