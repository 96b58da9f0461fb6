/-
# Line ends in front of a token

The flag of a token tells whether a line ends in front of it, and the line table tells on which line a place lies. They
agree: the flag is set if and only if the token begins on a later line than the token before it ends, unless a comment
in brackets is never closed.
-/

import BindingRepair.Proofs.Lexer.Tiling
import BindingRepair.Proofs.Positions

namespace BindingRepair

namespace Text

/-- The two texts do not part a carriage return from its line feed. -/
def KeepsLineEnds (first second : List Char) : Prop :=
  first.getLast? = some '\r' → second.head? ≠ some '\n'

theorem KeepsLineEnds.of_append {first middle second : List Char} (keeps : KeepsLineEnds first (middle ++ second)) :
    KeepsLineEnds first middle := by
  intro last feed
  obtain ⟨more, rfl⟩ := List.head?_eq_some_iff.mp feed
  exact keeps last rfl

theorem KeepsLineEnds.behind (front : List Char) {first second : List Char} (keeps : KeepsLineEnds (front ++ first) second) :
    KeepsLineEnds first second := by
  intro last
  refine keeps ?_
  rw [List.getLast?_append, last]
  rfl

namespace LineTable

/-- Where a carriage return ends a line alone, it does so in front of further text as well. -/
theorem startsFrom_cons_append (offset : Nat) {c : Char} {cs second : List Char}
    (single : ∀ more, c = '\r' → cs = '\n' :: more → False) (keeps : KeepsLineEnds (c :: cs) second) :
    startsFrom offset (c :: (cs ++ second)) =
      if isLineTerminator c then (offset + c.utf8Size) :: startsFrom (offset + c.utf8Size) (cs ++ second)
      else startsFrom (offset + c.utf8Size) (cs ++ second) := by
  rw [startsFrom]
  rintro more rfl parts
  cases cs with
  | nil => exact keeps rfl (by rw [← List.nil_append second, parts]; rfl)
  | cons d ds =>
      obtain ⟨rfl, -⟩ := List.cons.inj parts
      exact single ds rfl rfl

/-- The lines of two texts are those of the first and those of the second behind it. -/
theorem startsFrom_append (offset : Nat) {first second : List Char} (keeps : KeepsLineEnds first second) :
    startsFrom offset (first ++ second) =
      startsFrom offset first ++ startsFrom (offset + byteLength first) second := by
  fun_induction startsFrom offset first with
  | case1 offset => rfl
  | case2 offset cs ih =>
      have later := ih (keeps.behind ['\r', '\n'])
      have ends : offset + byteLength ('\r' :: '\n' :: cs) = offset + 2 + byteLength cs := by
        change offset + (1 + (1 + byteLength cs)) = _
        omega
      rw [ends]
      exact congrArg ((offset + 2) :: ·) later
  | case3 offset c cs single terminates ih =>
      rw [List.cons_append, startsFrom_cons_append offset single keeps, if_pos terminates,
        ih (keeps.behind [c]), byteLength, Nat.add_assoc, List.cons_append]
  | case4 offset c cs single inLine ih =>
      rw [List.cons_append, startsFrom_cons_append offset single keeps, if_neg inLine,
        ih (keeps.behind [c]), byteLength, Nat.add_assoc]

/-- A line starts behind each line ending. -/
theorem startsFrom_eq_nil_iff (offset : Nat) (chars : List Char) :
    startsFrom offset chars = [] ↔ chars.any isLineTerminator = false := by
  fun_induction startsFrom offset chars with
  | case1 => simp
  | case2 offset cs ih => simp [isLineTerminator]
  | case3 offset c cs _ terminates ih => simp [terminates]
  | case4 offset c cs _ inLine ih => simp [ih, Bool.eq_false_iff.mpr inLine]

/-- The line of a place is told by the line endings before it. -/
theorem lineAt_byteLength {first second : List Char} (keeps : KeepsLineEnds first second) :
    (ofText (first ++ second)).lineAt (byteLength first) = (startsFrom 0 first).length + 1 := by
  let early (start : Nat) : Bool := start ≤ byteLength first
  -- The lines that start up to the place are the first one and those of the text before it.
  have earlier : ∀ start ∈ startsFrom 0 first, early start = true := by
    intro start listed
    have inside := (marks_of_mem_startsFrom listed).le_ends
    rw [Cursor.ends, Nat.zero_add] at inside
    exact decide_eq_true inside
  have later : (startsFrom (0 + byteLength first) second).takeWhile early = [] := by
    cases behind : startsFrom (0 + byteLength first) second with
    | nil => rfl
    | cons start more =>
        have less := lt_of_mem_startsFrom (behind ▸ List.mem_cons_self : start ∈ startsFrom _ second)
        rw [Nat.zero_add] at less
        exact List.takeWhile_cons_of_neg (by simpa [early] using less)
  have zero : early 0 = true := decide_eq_true (Nat.zero_le _)
  change ((0 :: startsFrom 0 (first ++ second)).takeWhile early).length = _
  rw [startsFrom_append 0 keeps, List.takeWhile_cons_of_pos zero, List.takeWhile_append_of_pos earlier, later,
    List.append_nil, List.length_cons]

/-- A place lies on a later line than another before it if and only if a line ends between them. -/
theorem lineAt_lt_lineAt_iff {first middle second : List Char} (keeps : KeepsLineEnds first (middle ++ second))
    (keeps' : KeepsLineEnds (first ++ middle) second) :
    (ofText (first ++ (middle ++ second))).lineAt (byteLength first) <
      (ofText (first ++ (middle ++ second))).lineAt (byteLength first + byteLength middle) ↔
        middle.any isLineTerminator = true := by
  have before := lineAt_byteLength keeps
  have behind := lineAt_byteLength keeps'
  rw [List.append_assoc, byteLength_append, startsFrom_append 0 keeps.of_append, List.length_append] at behind
  have none : (startsFrom (0 + byteLength first) middle).length = 0 ↔ middle.any isLineTerminator = false :=
    List.length_eq_zero_iff.trans (startsFrom_eq_nil_iff _ middle)
  rw [before, behind, ← Bool.not_eq_false, ← none]
  omega

end LineTable

end Text

namespace Script

open Text Cursor

/-! ### Tokens end behind line endings or in front of them -/

/-- An unterminated string ends in front of a line ending, which no escape parts. -/
theorem splits_stringEnd_of_splits {quote : Char} (other : quote ≠ '\r') {origin : Cursor} {offset : Nat}
    {cs : List Char} (splits : origin.Splits ⟨offset, cs⟩) : origin.Splits (stringEnd quote offset cs).2 := by
  fun_induction stringEnd quote offset cs with
  | case1 => exact splits
  | case2 => exact splits
  | case3 => exact splits
  | case4 offset cs ih =>
      have feed : origin.Reaches ⟨offset + 2, '\n' :: cs⟩ := splits.reaches.trans ⟨['\\', '\r'], rfl, rfl⟩
      exact ih (feed.trans_splits (splits_cons (offset + 2) cs (by decide)))
  | case5 offset c cs single ih =>
      have escape : origin.Reaches ⟨offset + 1, c :: cs⟩ := splits.reaches.trans (reaches_cons offset '\\' _)
      -- A carriage return behind a backslash is passed alone, but then no line feed follows it.
      by_cases carriage : c = '\r'
      · refine ih ((escape.trans (reaches_cons _ c cs)).splits fun feed => ?_)
        obtain ⟨more, rest⟩ := List.head?_eq_some_iff.mp feed
        exact single more carriage rest
      · exact ih (escape.trans_splits (splits_cons _ cs carriage))
  | case6 offset c cs _ _ _ _ closes =>
      exact splits.reaches.trans_splits (splits_cons offset cs (beq_iff_eq.mp closes ▸ other))
  | case7 offset c cs _ noReturn _ _ _ ih => exact ih (splits.reaches.trans_splits (splits_cons offset cs noReturn))

/-- An unterminated template reaches to the end of the text. -/
theorem rest_templateEnd {closed opened : TemplatePart} {offset : Nat} {cs : List Char}
    (unterminated : (templateEnd closed opened offset cs).1 = .invalid) :
    (templateEnd closed opened offset cs).2.rest = [] := by
  fun_induction templateEnd closed opened offset cs with
  | case1 => rfl
  | case2 _ _ _ ih => exact ih unterminated
  | case3 => cases unterminated
  | case4 => cases unterminated
  | case5 _ _ _ _ _ _ ih => exact ih unterminated

/-- No token ends within a line ending. -/
theorem Token.splits_readAt (newline : Bool) {place : Cursor} (other : ∀ c ∈ place.rest.head?, c ≠ '\r') :
    place.Splits (Token.readAt newline place).last := by
  -- For all but invalid tokens this is known. An invalid one is a single character, or it is unterminated.
  by_cases complete : (Token.readAt newline place).kind = .invalid
  case neg =>
    have whole := (Token.covers_readAt newline place).splits complete
    rwa [Token.first_readAt] at whole
  revert complete
  unfold Token.readAt
  split
  · exact TokenKind.noConfusion
  · rename_i c cs here
    have opening : place.Splits place.next := splits_next here (other c (by rw [here]; rfl))
    have behind : place.next = ⟨place.next.offset, cs⟩ := by simp [Cursor.next, here]
    split
    · split
      · exact fun _ => opening
      · exact TokenKind.noConfusion
    · split
      · exact TokenKind.noConfusion
      · split
        · rename_i quoted
          have quote : c ≠ '\r' := other c (by rw [here]; rfl)
          exact fun _ => splits_stringEnd_of_splits quote (behind ▸ opening)
        · split
          · intro unterminated
            have body := reaches_templateEnd .full .head place.next.offset cs
            rw [← behind] at body
            exact (opening.reaches.trans body).splits (by rw [rest_templateEnd unterminated]; simp)
          · split
            · exact TokenKind.noConfusion
            · split
              · exact TokenKind.noConfusion
              · exact fun _ => opening

theorem Token.splits_read (place : Cursor) : (Token.read place).first.Splits (Token.read place).last := by
  rw [Token.first_read]
  refine Token.splits_readAt _ fun c here => ?_
  rintro rfl
  exact absurd (isGapChar_head_skipTrivia place '\r' here) (by decide)

theorem keepsLineEnds_of_splits {text first : List Char} {place : Cursor} (splits : (start text).Splits place)
    (parts : text = first ++ place.rest) : KeepsLineEnds first place.rest := by
  intro last feed
  obtain ⟨word, c, parts', other⟩ := splits.whole feed
  have same : first ++ place.rest = (word ++ [c]) ++ place.rest := by
    rw [← parts, List.append_assoc]
    exact parts'
  obtain rfl := List.append_cancel_right same
  rw [List.getLast?_concat, Option.some.injEq] at last
  exact other last

/-- Tokens end where no line ending is parted. -/
theorem keepsLineEnds_standAfter {text first : List Char} {k : Nat} (parts : text = first ++ (standAfter text k).rest) :
    KeepsLineEnds first (standAfter text k).rest := by
  cases k with
  | zero =>
      obtain rfl : first = [] := List.append_left_eq_self.mp parts.symm
      exact fun none => by cases none
  | succ k =>
      exact keepsLineEnds_of_splits ((reaches_tokenAfter text k).trans_splits (Token.splits_read _)) parts

/-- A comment in brackets is begun in front of the end of the text and never closed. -/
def HasOpenComment (text : List Char) : Prop :=
  ∃ k, (tokenAfter text k).kind = .endOfText ∧ IsSkipped (standAfter text k).offset [] false (gapAfter text k)

/-- What stands in front of the first end of the text tells whether a comment is never closed. -/
theorem not_hasOpenComment {text : List Char} {n : Nat} (ends : (tokenAfter text n).kind = .endOfText)
    (before : ∀ k < n, (tokenAfter text k).kind ≠ .endOfText)
    (closed : ¬ IsSkipped (standAfter text n).offset [] false (gapAfter text n)) : ¬ HasOpenComment text := by
  rintro ⟨k, ends', skipped⟩
  rcases Nat.lt_trichotomy k n with earlier | rfl | later
  · exact before k earlier ends'
  · exact closed skipped
  · have none : gapAfter text k = [] := by
      have rest := rest_standAfter_of_lt ends later
      rw [rest_standAfter, List.append_assoc] at rest
      exact (List.append_eq_nil_iff.mp rest).1
    rw [none] at skipped
    rcases skipped with ⟨⟨⟩⟩

/-- The flag of a token is set if and only if the token begins on a later line than the one before it ends. -/
theorem newlines_agree_with_lines (text : List Char) (closed : ¬ HasOpenComment text) (k : Nat) :
    (tokenAfter text k).newlineBefore = true ↔
      (LineTable.ofText text).lineAt (standAfter text k).offset <
        (LineTable.ofText text).lineAt (tokenAfter text k).start := by
  obtain ⟨closed', is, crosses⟩ := crosses_gapAfter text k
  -- A gap that is not closed stands in front of the end of the text.
  have all : closed' = true := by
    refine Bool.not_eq_false _ |>.mp fun unclosed => closed ⟨k, ?_⟩
    subst unclosed
    have ends := is.rest_eq_nil
    exact ⟨kind_tokenAfter_eq_endOfText_iff.mpr ends, ends ▸ is⟩
  have flag : (tokenAfter text k).newlineBefore = (gapAfter text k).any isLineTerminator :=
    (Token.newlineBefore_read _).trans (crosses.newline all)
  obtain ⟨first, parts, there⟩ := reaches_standAfter text k
  replace parts : text = first ++ (standAfter text k).rest := parts
  have keeps := keepsLineEnds_standAfter parts
  have rest : (standAfter text k).rest = gapAfter text k ++ (tokenAfter text k).first.rest := by
    rw [crosses.rest, tokenAfter, Token.first_read]
  have start : (tokenAfter text k).start = (standAfter text k).offset + byteLength (gapAfter text k) := by
    rw [tokenAfter, Token.start, Token.first_read, crosses.offset]
  rw [rest] at parts keeps
  have visible : KeepsLineEnds (first ++ gapAfter text k) (tokenAfter text k).first.rest := fun _ feed => by
    rw [tokenAfter, Token.first_read] at feed
    exact absurd (isGapChar_head_skipTrivia _ _ feed) (by decide)
  have lines := LineTable.lineAt_lt_lineAt_iff keeps visible
  rw [flag, start, there, Cursor.start, Nat.zero_add, ← lines]
  exact parts ▸ Iff.rfl

/-- A text with a line ending of two characters in a string, one in a comment in brackets, and one behind a comment
that ends a line. -/
def textOfLines : List Char :=
  "'a\\\r\nb' /* \u2028 */ + // c\r\n 2;".toList

theorem newlines_agree_with_lines_textOfLines :
    ¬ HasOpenComment textOfLines ∧ ((tokenAfter textOfLines 1).newlineBefore = true ↔
      (LineTable.ofText textOfLines).lineAt (standAfter textOfLines 1).offset <
        (LineTable.ofText textOfLines).lineAt (tokenAfter textOfLines 1).start) := by
  have closed : ¬ HasOpenComment textOfLines := by
    refine not_hasOpenComment (n := 4) (by decide +kernel) (by decide +kernel) ?_
    have none : gapAfter textOfLines 4 = [] := by decide +kernel
    rw [none]
    rintro ⟨⟨⟩⟩
  exact ⟨closed, newlines_agree_with_lines textOfLines closed 1⟩

example : (List.range 5).map (fun k => (tokenAfter textOfLines k).newlineBefore) = [false, true, true, false, false] := by
  decide +kernel

end Script

end BindingRepair
