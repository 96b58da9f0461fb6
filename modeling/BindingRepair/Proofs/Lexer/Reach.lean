/-
# Moving forward

All reading moves a cursor forward over characters of the text, and most of it over at least one.
-/

import BindingRepair.Proofs.Characters
import BindingRepair.Script.Lexer

namespace BindingRepair

namespace Text

theorem byteLength_cons_ne_zero (c : Char) (cs : List Char) : byteLength (c :: cs) ≠ 0 := by
  have positive := c.utf8Size_pos
  simp only [byteLength]
  omega

theorem byteLength_append (first second : List Char) :
    byteLength (first ++ second) = byteLength first + byteLength second := by
  induction first with
  | nil => simp [byteLength]
  | cons c cs ih => simp only [List.cons_append, byteLength, ih, Nat.add_assoc]

/-- The later cursor stands some characters behind the earlier one. -/
def Cursor.Reaches (earlier later : Cursor) : Prop :=
  ∃ word, earlier.rest = word ++ later.rest ∧ later.offset = earlier.offset + byteLength word

namespace Cursor

variable {a b c : Cursor}

theorem Reaches.refl (a : Cursor) : a.Reaches a :=
  ⟨[], rfl, rfl⟩

theorem Reaches.trans (first : a.Reaches b) (second : b.Reaches c) : a.Reaches c := by
  obtain ⟨word, rest, offset⟩ := first
  obtain ⟨word', rest', offset'⟩ := second
  refine ⟨word ++ word', ?_, ?_⟩
  · rw [rest, rest', List.append_assoc]
  · rw [offset', offset, byteLength_append, Nat.add_assoc]

theorem Reaches.length_le (reaches : a.Reaches b) : b.rest.length ≤ a.rest.length := by
  obtain ⟨word, rest, -⟩ := reaches
  rw [rest, List.length_append]
  exact Nat.le_add_left ..

theorem Reaches.offset_le (reaches : a.Reaches b) : a.offset ≤ b.offset := by
  obtain ⟨word, -, offset⟩ := reaches
  rw [offset]
  exact Nat.le_add_right ..

/-- Of two places behind a third the one with the greater offset stands behind the other. -/
theorem Reaches.of_offset_le {origin : Cursor} (first : origin.Reaches a) (second : origin.Reaches b)
    (ordered : a.offset ≤ b.offset) : a.Reaches b := by
  obtain ⟨word, parts, there⟩ := first
  obtain ⟨word', parts', there'⟩ := second
  rcases List.append_eq_append_iff.mp (parts.symm.trans parts') with ⟨more, rfl, rest⟩ | ⟨more, rfl, rest⟩
  · refine ⟨more, rest, ?_⟩
    rw [there', there, byteLength_append, Nat.add_assoc]
  · -- The other way round nothing stands between them.
    rw [byteLength_append] at there
    have none : byteLength more = 0 := by omega
    cases more with
    | nil =>
        rw [List.nil_append] at rest
        exact ⟨[], rest.symm, by rw [there', there]; rfl⟩
    | cons c cs => exact absurd none (byteLength_cons_ne_zero c cs)

/-- Two places behind a third that have one offset are the same. -/
theorem Reaches.eq_of_offset {origin : Cursor} (first : origin.Reaches a) (second : origin.Reaches b)
    (same : a.offset = b.offset) : a = b := by
  obtain ⟨word, rest, there⟩ := first.of_offset_le second (Nat.le_of_eq same)
  cases word with
  | nil =>
      rw [List.nil_append] at rest
      cases a
      cases b
      rw [mk.injEq]
      exact ⟨same, rest⟩
  | cons c cs =>
      have none : byteLength (c :: cs) = 0 := by omega
      exact absurd none (byteLength_cons_ne_zero c cs)

/-- Where the text from a place on ends. -/
def ends (a : Cursor) : Nat :=
  a.offset + byteLength a.rest

theorem Reaches.ends_eq (reaches : a.Reaches b) : b.ends = a.ends := by
  obtain ⟨word, rest, offset⟩ := reaches
  rw [ends, ends, rest, offset, byteLength_append, Nat.add_assoc]

/-- The offset is that of a place behind a cursor. -/
def Marks (origin : Cursor) (offset : Nat) : Prop :=
  ∃ place, origin.Reaches place ∧ place.offset = offset

theorem Reaches.marks (reaches : a.Reaches b) : a.Marks b.offset :=
  ⟨b, reaches, rfl⟩

theorem Marks.le_ends {offset : Nat} (marks : a.Marks offset) : offset ≤ a.ends := by
  obtain ⟨place, reaches, rfl⟩ := marks
  rw [← reaches.ends_eq]
  exact Nat.le_add_right ..

theorem reaches_cons (offset : Nat) (x : Char) (xs : List Char) :
    Reaches ⟨offset, x :: xs⟩ ⟨offset + x.utf8Size, xs⟩ :=
  ⟨[x], rfl, rfl⟩

theorem reaches_next (a : Cursor) : a.Reaches a.next := by
  obtain ⟨offset, rest⟩ := a
  cases rest with
  | nil => exact .refl _
  | cons x xs => exact reaches_cons offset x xs

theorem reaches_skip (a : Cursor) (n : Nat) : a.Reaches (a.skip n) := by
  induction n generalizing a with
  | zero => exact .refl a
  | succ n ih => exact a.reaches_next.trans (ih a.next)

theorem skipWhile_eq (a : Cursor) (p : Char → Bool) :
    a.skipWhile p = ⟨a.offset + byteLength (a.rest.takeWhile p), a.rest.dropWhile p⟩ := by
  obtain ⟨offset, rest⟩ := a
  unfold skipWhile
  dsimp only
  induction rest generalizing offset with
  | nil => rfl
  | cons x xs ih =>
      unfold skipWhile.go
      by_cases inside : p x = true
      · rw [if_pos inside, ih, List.takeWhile_cons_of_pos inside, List.dropWhile_cons_of_pos inside, byteLength,
          Nat.add_assoc]
      · rw [if_neg inside, List.takeWhile_cons_of_neg inside, List.dropWhile_cons_of_neg inside]
        rfl

/-- Skipping ends in front of a character that is not skipped. -/
theorem not_of_skipWhile {p : Char → Bool} {x : Char} {xs : List Char} (here : (a.skipWhile p).rest = x :: xs) :
    p x = false := by
  have stops := List.head?_dropWhile_not p a.rest
  rw [skipWhile_eq] at here
  rw [show a.rest.dropWhile p = x :: xs from here] at stops
  exact stops

theorem reaches_skipWhile (a : Cursor) (p : Char → Bool) : a.Reaches (a.skipWhile p) := by
  rw [skipWhile_eq]
  exact ⟨a.rest.takeWhile p, List.takeWhile_append_dropWhile.symm, rfl⟩

/-- A first character is skipped before the others. -/
theorem skipWhile_of_head {x : Char} {xs : List Char} {p : Char → Bool} (here : a.rest = x :: xs) (inside : p x = true) :
    a.skipWhile p = a.next.skipWhile p := by
  obtain ⟨offset, rest⟩ := a
  obtain rfl : rest = x :: xs := here
  simp only [skipWhile, skipWhile.go, inside, if_true, next]

/-- The later cursor stands at least one character behind the earlier one. -/
structure Passes (earlier later : Cursor) : Prop where
  reaches : earlier.Reaches later
  length_lt : later.rest.length < earlier.rest.length

theorem Passes.offset_lt (passes : a.Passes b) : a.offset < b.offset := by
  obtain ⟨⟨word, rest, offset⟩, shorter⟩ := passes
  cases word with
  | nil =>
      rw [rest] at shorter
      exact absurd shorter (Nat.lt_irrefl _)
  | cons c cs =>
      have positive := c.utf8Size_pos
      rw [offset, byteLength]
      omega

theorem Reaches.passes (reaches : a.Reaches b) (further : a.offset < b.offset) : a.Passes b := by
  refine ⟨reaches, ?_⟩
  obtain ⟨word, rest, offset⟩ := reaches
  cases word with
  | nil => exact absurd (Nat.lt_of_lt_of_eq further offset) (Nat.lt_irrefl _)
  | cons c cs =>
      rw [rest]
      simp only [List.cons_append, List.length_cons, List.length_append]
      omega

theorem Passes.rest_ne_nil (passes : a.Passes b) : a.rest ≠ [] := by
  intro none
  have shorter := passes.length_lt
  rw [none] at shorter
  exact absurd shorter (Nat.not_lt_zero _)

theorem Passes.trans_reaches (first : a.Passes b) (second : b.Reaches c) : a.Passes c :=
  ⟨first.reaches.trans second, Nat.lt_of_le_of_lt second.length_le first.length_lt⟩

theorem Reaches.trans_passes (first : a.Reaches b) (second : b.Passes c) : a.Passes c :=
  ⟨first.trans second.reaches, Nat.lt_of_lt_of_le second.length_lt first.length_le⟩

/-- The later cursor stands behind the earlier one, at least one character unless the text ends there. -/
structure Fills (earlier later : Cursor) : Prop where
  reaches : earlier.Reaches later
  passes : earlier.rest ≠ [] → earlier.Passes later

theorem Fills.trans_reaches (first : a.Fills b) (second : b.Reaches c) : a.Fills c :=
  ⟨first.reaches.trans second, fun more => (first.passes more).trans_reaches second⟩

theorem Reaches.trans_fills (first : a.Reaches b) (second : b.Fills c) : a.Fills c := by
  refine ⟨first.trans second.reaches, fun more => ?_⟩
  by_cases none : b.rest = []
  · -- The first stretch reaches the end of the text, so it is not empty.
    refine Passes.trans_reaches ⟨first, ?_⟩ second.reaches
    rw [none]
    exact List.length_pos_iff.mpr more
  · exact first.trans_passes (second.passes none)

/-- The stretch between is not empty, or it lies at the end of the text. -/
theorem Fills.offset_lt_or (fills : a.Fills b) : a.offset < b.offset ∨ a.offset = a.ends := by
  by_cases none : a.rest = []
  · exact .inr (by rw [ends, none]; rfl)
  · exact .inl (fills.passes none).offset_lt

theorem passes_next {x : Char} {xs : List Char} (here : a.rest = x :: xs) : a.Passes a.next := by
  refine ⟨a.reaches_next, ?_⟩
  simp [next, here]

/-- The later cursor stands behind the earlier one and not within a line ending: before a line feed stands
another character than a carriage return. -/
structure Splits (earlier later : Cursor) : Prop where
  reaches : earlier.Reaches later
  whole : later.rest.head? = some '\n' → ∃ word c, earlier.rest = word ++ c :: later.rest ∧ c ≠ '\r'

theorem Reaches.trans_splits (first : a.Reaches b) (second : b.Splits c) : a.Splits c := by
  refine ⟨first.trans second.reaches, fun feed => ?_⟩
  obtain ⟨before, parts, -⟩ := first
  obtain ⟨word, x, rest, other⟩ := second.whole feed
  exact ⟨before ++ word, x, by rw [parts, rest, List.append_assoc], other⟩

/-- The offset is that of a place behind a cursor and not within a line ending. -/
def SplitsAt (origin : Cursor) (offset : Nat) : Prop :=
  ∃ place, origin.Splits place ∧ place.offset = offset

theorem Splits.at_offset (splits : a.Splits b) : a.SplitsAt b.offset :=
  ⟨b, splits, rfl⟩

theorem SplitsAt.marks {offset : Nat} (splits : a.SplitsAt offset) : a.Marks offset := by
  obtain ⟨place, splits, is⟩ := splits
  exact ⟨place, splits.reaches, is⟩

theorem Reaches.splits (reaches : a.Reaches b) (other : b.rest.head? ≠ some '\n') : a.Splits b :=
  ⟨reaches, fun feed => absurd feed other⟩

theorem splits_cons (offset : Nat) {x : Char} (xs : List Char) (other : x ≠ '\r') :
    Splits ⟨offset, x :: xs⟩ ⟨offset + x.utf8Size, xs⟩ :=
  ⟨reaches_cons offset x xs, fun _ => ⟨[], x, rfl, other⟩⟩

theorem splits_next {x : Char} {xs : List Char} (here : a.rest = x :: xs) (other : x ≠ '\r') : a.Splits a.next := by
  obtain ⟨offset, rest⟩ := a
  obtain rfl : rest = x :: xs := here
  exact splits_cons offset xs other

/-- Further characters do not end in a carriage return if none of them is one. -/
theorem Splits.skipWhile (splits : a.Splits b) {p : Char → Bool} (other : p '\r' = false) :
    a.Splits (b.skipWhile p) := by
  obtain ⟨offset, rest⟩ := b
  unfold Cursor.skipWhile
  dsimp only
  induction rest generalizing offset with
  | nil => exact splits
  | cons x xs ih =>
      unfold skipWhile.go
      split
      · rename_i skipped
        refine ih _ (splits.reaches.trans_splits (splits_cons offset xs ?_))
        rintro rfl
        rw [other] at skipped
        cases skipped
      · exact splits

end Cursor

end Text

namespace Script

open Text Cursor

variable {place : Cursor}

/-! ### Gaps and names -/

theorem triviaEnd_opensLine (newline : Bool) (offset : Nat) (cs : List Char) :
    triviaEnd .blanks newline offset ('/' :: '/' :: cs) = triviaEnd .lineComment newline (offset + 2) cs :=
  rfl

theorem triviaEnd_opensBlock (newline : Bool) (offset : Nat) (cs : List Char) :
    triviaEnd .blanks newline offset ('/' :: '*' :: cs) = triviaEnd (.blockComment false) newline (offset + 2) cs :=
  rfl

/-- Where no comment begins, a blank is skipped. -/
theorem triviaEnd_blanks_cons {c : Char} {cs : List Char} (noLine : ∀ more, c = '/' → cs = '/' :: more → False)
    (noBlock : ∀ more, c = '/' → cs = '*' :: more → False) (newline : Bool) (offset : Nat) :
    triviaEnd .blanks newline offset (c :: cs) =
      if isLineTerminator c then triviaEnd .blanks true (offset + c.utf8Size) cs
      else if Unicode.isBlank c || c == '\ufeff' then triviaEnd .blanks newline (offset + c.utf8Size) cs
      else (newline, ⟨offset, c :: cs⟩) := by
  rw [triviaEnd]
  · exact noLine
  · exact noBlock

theorem triviaEnd_lineComment_cons (newline : Bool) (offset : Nat) (c : Char) (cs : List Char) :
    triviaEnd .lineComment newline offset (c :: cs) =
      if isLineTerminator c then triviaEnd .blanks true (offset + c.utf8Size) cs
      else triviaEnd .lineComment newline (offset + c.utf8Size) cs := by
  rw [triviaEnd]

theorem triviaEnd_blockComment_cons {c : Char} {cs : List Char} (goesOn : ∀ more, c = '*' → cs = '/' :: more → False)
    (inner newline : Bool) (offset : Nat) : triviaEnd (.blockComment inner) newline offset (c :: cs) =
      triviaEnd (.blockComment (inner || isLineTerminator c)) newline (offset + c.utf8Size) cs := by
  rw [triviaEnd]
  exact goesOn

theorem reaches_triviaEnd (mode : Trivia) (newline : Bool) (offset : Nat) (cs : List Char) :
    Reaches ⟨offset, cs⟩ (triviaEnd mode newline offset cs).2 := by
  fun_induction triviaEnd mode newline offset cs with
  | case1 => exact .refl _
  | case2 newline offset cs ih => exact Reaches.trans ⟨['/', '/'], rfl, rfl⟩ ih
  | case3 newline offset cs ih => exact Reaches.trans ⟨['/', '*'], rfl, rfl⟩ ih
  | case4 newline offset c cs _ _ _ ih => exact (reaches_cons offset c cs).trans ih
  | case5 newline offset c cs _ _ _ _ ih => exact (reaches_cons offset c cs).trans ih
  | case6 => exact .refl _
  | case7 newline offset c cs _ ih => exact (reaches_cons offset c cs).trans ih
  | case8 newline offset c cs _ ih => exact (reaches_cons offset c cs).trans ih
  | case9 inner newline offset cs ih => exact Reaches.trans ⟨['*', '/'], rfl, rfl⟩ ih
  | case10 inner newline offset c cs _ ih => exact (reaches_cons offset c cs).trans ih

theorem reaches_skipTrivia (place : Cursor) : place.Reaches (skipTrivia place).2 := by
  unfold skipTrivia
  split
  · exact reaches_triviaEnd ..
  · exact reaches_triviaEnd ..

/-- A hexadecimal digit is one byte. -/
theorem utf8Size_of_isHexDigit {c : Char} (digit : isHexDigit c = true) : c.utf8Size = 1 := by
  have narrow : c.toNat < 128 := by
    simp only [isHexDigit, Char.isDigit, Bool.or_eq_true, Bool.and_eq_true, decide_eq_true_eq,
      UInt32.le_iff_toNat_le, ge_iff_le, Char.le_def] at digit
    have value : c.toNat = c.val.toNat := rfl
    simp at digit
    omega
  simp only [Char.utf8Size, UInt32.le_iff_toNat_le]
  rw [if_pos]
  exact Nat.le_of_lt_succ narrow

theorem reaches_pastEscape? {behind : Cursor} (found : pastEscape? place = some behind) :
    place.Reaches behind := by
  obtain ⟨offset, rest⟩ := place
  unfold pastEscape? at found
  split at found
  · rename_i digits here
    dsimp only at here found
    split at found
    · rw [← Option.some.inj found, here]
      have opening : Reaches ⟨offset, '\\' :: 'u' :: '{' :: digits⟩ ⟨offset + 3, digits⟩ :=
        ⟨['\\', 'u', '{'], rfl, rfl⟩
      exact (opening.trans (reaches_skipWhile _ _)).trans (reaches_next _)
    · cases found
  · rename_i w x y z rest _ here
    dsimp only at here found
    split at found
    · rename_i digits
      rw [← Option.some.inj found, here]
      simp only [List.all_cons, List.all_nil, Bool.and_true, Bool.and_eq_true] at digits
      obtain ⟨first, second, third, fourth⟩ := digits
      refine ⟨['\\', 'u', w, x, y, z], rfl, ?_⟩
      simp only [byteLength, utf8Size_of_isHexDigit first, utf8Size_of_isHexDigit second,
        utf8Size_of_isHexDigit third, utf8Size_of_isHexDigit fourth]
      rfl
    · cases found
  · cases found

theorem reaches_pastIdentifierChar? {first escaped : Bool} {behind : Cursor}
    (found : pastIdentifierChar? first place = some (behind, escaped)) : place.Reaches behind := by
  unfold pastIdentifierChar? at found
  split at found
  · cases found
  · split at found
    · obtain ⟨d, here, same⟩ := Option.map_eq_some_iff.mp found
      rw [← (Prod.mk.inj same).1]
      exact reaches_pastEscape? here
    · split at found
      · rw [← (Prod.mk.inj (Option.some.inj found)).1]
        exact place.reaches_next
      · cases found

theorem reaches_skipIdentifier (first escaped : Bool) (place : Cursor) :
    place.Reaches (skipIdentifier first escaped place).1 := by
  fun_induction skipIdentifier first escaped place with
  | case1 => exact .refl _
  | case2 _ _ _ _ _ found ih => exact (reaches_pastIdentifierChar? found).trans ih

/-! ### Literals -/

theorem reaches_skipDigits (base : Nat) (place : Cursor) : place.Reaches (skipDigits base place) :=
  place.reaches_skipWhile _

theorem reaches_skipIf (p : Char → Bool) (place : Cursor) : place.Reaches (skipIf p place) := by
  unfold skipIf
  split
  · exact place.reaches_next
  · exact .refl place

theorem reaches_skipExponent (place : Cursor) : place.Reaches (skipExponent place) := by
  unfold skipExponent
  dsimp only
  split
  · split
    · exact (place.reaches_next.trans (reaches_skipIf _ _)).trans (reaches_skipDigits _ _)
    · exact .refl place
  · exact .refl place

theorem reaches_stringEnd (quote : Char) (offset : Nat) (cs : List Char) :
    Reaches ⟨offset, cs⟩ (stringEnd quote offset cs).2 := by
  fun_induction stringEnd quote offset cs with
  | case1 => exact .refl _
  | case2 => exact .refl _
  | case3 => exact .refl _
  | case4 offset cs ih => exact Reaches.trans ⟨['\\', '\r', '\n'], rfl, rfl⟩ ih
  | case5 offset c cs _ ih =>
      exact ((reaches_cons offset '\\' _).trans (reaches_cons _ c cs)).trans ih
  | case6 offset c cs => exact reaches_cons offset _ cs
  | case7 offset c cs _ _ _ _ _ ih => exact (reaches_cons offset c cs).trans ih

theorem reaches_templateEnd (closed opened : TemplatePart) (offset : Nat) (cs : List Char) :
    Reaches ⟨offset, cs⟩ (templateEnd closed opened offset cs).2 := by
  fun_induction templateEnd closed opened offset cs with
  | case1 => exact .refl _
  | case2 offset c cs ih =>
      exact ((reaches_cons offset '\\' _).trans (reaches_cons _ c cs)).trans ih
  | case3 offset cs => exact ⟨['$', '{'], rfl, rfl⟩
  | case4 offset c cs => exact reaches_cons offset _ cs
  | case5 offset c cs _ _ _ ih => exact (reaches_cons offset c cs).trans ih

theorem reaches_regexEnd (inClass : Bool) (offset : Nat) (cs : List Char) :
    Reaches ⟨offset, cs⟩ (regexEnd inClass offset cs).2 := by
  fun_induction regexEnd inClass offset cs with
  | case1 => exact .refl _
  | case2 inClass offset => exact reaches_cons offset '\\' []
  | case3 inClass offset c cs => exact reaches_cons offset '\\' (c :: cs)
  | case4 inClass offset c cs _ ih =>
      exact ((reaches_cons offset '\\' _).trans (reaches_cons _ c cs)).trans ih
  | case5 => exact .refl _
  | case6 inClass offset c cs _ _ _ opens ih =>
      obtain rfl := beq_iff_eq.mp opens
      exact (reaches_cons offset '[' cs).trans ih
  | case7 inClass offset c cs _ _ _ _ closes ih =>
      obtain rfl := beq_iff_eq.mp closes
      exact (reaches_cons offset ']' cs).trans ih
  | case8 inClass offset c cs _ _ _ _ _ ends =>
      obtain rfl := beq_iff_eq.mp (Bool.and_eq_true_iff.mp ends).1
      exact reaches_cons offset '/' cs
  | case9 inClass offset c cs _ _ _ _ _ _ ih => exact (reaches_cons offset c cs).trans ih

/-! ### At least one character -/

theorem isDigitOf_ten {c : Char} (digit : c.isDigit = true) : (c == '_' || isDigitOf 10 c) = true := by
  have value : c.toNat - 48 < 10 := by
    simp only [Char.isDigit, Bool.and_eq_true, decide_eq_true_eq, UInt32.le_iff_toNat_le] at digit
    have same : c.toNat = c.val.toNat := rfl
    have upper := digit.2
    simp at upper
    omega
  simp [isDigitOf, digit, value]

theorem passes_skipDigits {c : Char} {cs : List Char} (here : place.rest = c :: cs)
    (digit : c.isDigit = true) : place.Passes (skipDigits 10 place) := by
  rw [skipDigits, skipWhile_of_head here (isDigitOf_ten digit)]
  exact (passes_next here).trans_reaches (reaches_skipWhile _ _)

theorem passes_skipNumber {c : Char} {cs : List Char} (here : place.rest = c :: cs)
    (number : (c.isDigit || (c == '.' && cs.head?.any Char.isDigit)) = true) :
    place.Passes (skipNumber place) := by
  have fraction : place.Passes (if (skipDigits 10 place).peek? == some '.' then
      skipDigits 10 (skipDigits 10 place).next else skipDigits 10 place) := by
    cases digit : c.isDigit with
    | true =>
        have whole := passes_skipDigits here digit
        split
        · exact whole.trans_reaches ((reaches_next _).trans (reaches_skipDigits _ _))
        · exact whole
    | false =>
        -- A point comes first, and no digit before it.
        obtain ⟨offset, rest⟩ := place
        dsimp only at here
        rw [digit, Bool.false_or, Bool.and_eq_true, beq_iff_eq] at number
        rw [here, number.1]
        have whole : skipDigits 10 ⟨offset, '.' :: cs⟩ = ⟨offset, '.' :: cs⟩ := rfl
        rw [whole]
        exact (passes_next rfl).trans_reaches (reaches_skipDigits _ _)
  have digits (base : Nat) : place.Passes (if base == 10 then skipExponent
      (if (skipDigits 10 place).peek? == some '.' then skipDigits 10 (skipDigits 10 place).next
        else skipDigits 10 place) else skipDigits base (place.skip 2)) := by
    split
    · exact fraction.trans_reaches (reaches_skipExponent _)
    · exact (passes_next here).trans_reaches ((reaches_skip _ 1).trans (reaches_skipDigits _ _))
  exact (digits _).trans_reaches (reaches_skipIf _ _)

theorem passes_pastPunctuator? {behind : Cursor} (found : pastPunctuator? place = some behind) :
    place.Passes behind := by
  obtain ⟨mark, here, rfl⟩ := Option.map_eq_some_iff.mp found
  have fits := List.find?_some here
  have nonempty : mark ≠ [] := by
    rintro rfl
    exact absurd (List.mem_of_find?_eq_some here) (by decide)
  obtain ⟨c, cs, rfl⟩ := List.exists_cons_of_ne_nil nonempty
  obtain ⟨x, xs, rest⟩ : ∃ x xs, place.rest = x :: xs := by
    cases rest : place.rest with
    | nil => simp [rest] at fits
    | cons x xs => exact ⟨x, xs, rfl⟩
  exact (passes_next rest).trans_reaches (reaches_skip _ cs.length)

end Script

end BindingRepair
