/-
# Positions denote places

The line and the column of a place of a text denote that place, and the positions of places come in the order of
the places.
-/

import BindingRepair.Proofs.Grammar.WellFormed
import BindingRepair.Proofs.Pieces
import BindingRepair.Text.Lines

namespace BindingRepair.Text

/-! ### Columns -/

theorem utf16Size_pos (c : Char) : 0 < utf16Size c := by
  unfold utf16Size
  split
  · exact Nat.one_pos
  · exact Nat.two_pos

theorem utf16Length_append (first second : List Char) :
    utf16Length (first ++ second) = utf16Length first + utf16Length second := by
  induction first with
  | nil => rw [List.nil_append, utf16Length, Nat.zero_add]
  | cons c cs ih => rw [List.cons_append, utf16Length, utf16Length, ih, Nat.add_assoc]

theorem LineTable.offsetInLine_append (offset : Nat) (first rest : List Char) :
    offsetInLine offset (utf16Length first) (first ++ rest) = some (offset + byteLength first) := by
  induction first generalizing offset with
  | nil =>
      cases rest with
      | nil => rfl
      | cons c cs => rfl
  | cons c cs ih =>
      have positive := utf16Size_pos c
      rw [utf16Length, List.cons_append, offsetInLine, if_neg (by omega), if_neg (by omega),
        Nat.add_sub_cancel_left, ih, byteLength, Nat.add_assoc]

/-- As many bytes as some characters have and more reach behind these characters. -/
theorem takeBytes_append (first rest : List Char) (more : Nat) :
    takeBytes (byteLength first + more) (first ++ rest) = first ++ takeBytes more rest := by
  induction first with
  | nil => rw [byteLength, Nat.zero_add, List.nil_append, List.nil_append]
  | cons c cs ih =>
      have positive := c.utf8Size_pos
      have size : c.utf8Size + byteLength cs + more - c.utf8Size = byteLength cs + more := by omega
      rw [byteLength, List.cons_append, takeBytes, if_neg (by omega), size, ih]
      rfl

/-! ### Lines -/

theorem IsBoundary.marks {text : List Char} {offset : Nat} (boundary : IsBoundary text offset) :
    (Cursor.start text).Marks offset := by
  obtain ⟨before, behind, parts, there⟩ := boundary
  exact ⟨⟨offset, behind⟩, ⟨before, parts, there.trans (Nat.zero_add _).symm⟩, rfl⟩

theorem Cursor.Reaches.trans_marks {a b : Cursor} {offset : Nat} (reaches : a.Reaches b) (marks : b.Marks offset) :
    a.Marks offset := by
  obtain ⟨place, further, there⟩ := marks
  exact ⟨place, reaches.trans further, there⟩

namespace LineTable

/-- Lines start at places of the text. -/
theorem marks_of_mem_startsFrom {offset start : Nat} {text : List Char} (listed : start ∈ startsFrom offset text) :
    Cursor.Marks ⟨offset, text⟩ start := by
  fun_induction startsFrom offset text with
  | case1 => cases listed
  | case2 offset cs ih =>
      have reaches : Cursor.Reaches ⟨offset, '\r' :: '\n' :: cs⟩ ⟨offset + 2, cs⟩ := ⟨['\r', '\n'], rfl, rfl⟩
      rcases List.mem_cons.mp listed with rfl | further
      · exact reaches.marks
      · exact reaches.trans_marks (ih further)
  | case3 offset c cs _ _ ih =>
      have reaches := Cursor.reaches_cons offset c cs
      rcases List.mem_cons.mp listed with rfl | further
      · exact reaches.marks
      · exact reaches.trans_marks (ih further)
  | case4 offset c cs _ _ ih => exact (Cursor.reaches_cons offset c cs).trans_marks (ih listed)

/-- Lines start behind the place from which on they are counted. -/
theorem lt_of_mem_startsFrom {offset start : Nat} {chars : List Char}
    (listed : start ∈ startsFrom offset chars) : offset < start := by
  fun_induction startsFrom offset chars with
  | case1 => cases listed
  | case2 offset cs ih =>
      rcases List.mem_cons.mp listed with rfl | further
      · omega
      · exact (Nat.lt_add_of_pos_right Nat.two_pos).trans (ih further)
  | case3 offset c cs _ _ ih =>
      have positive := c.utf8Size_pos
      rcases List.mem_cons.mp listed with rfl | further
      · omega
      · exact (Nat.lt_add_of_pos_right positive).trans (ih further)
  | case4 offset c cs _ _ ih => exact (Nat.lt_add_of_pos_right c.utf8Size_pos).trans (ih listed)

variable {text : List Char} {place : Cursor}

theorem mem_starts_marks {start : Nat} (listed : start ∈ (ofText text).starts) :
    (Cursor.start text).Marks start := by
  rcases List.mem_cons.mp listed with rfl | further
  · exact (Cursor.Reaches.refl _).marks
  · exact marks_of_mem_startsFrom further

/-- The line of an offset is the last one that does not start behind it. -/
theorem exists_line (text : List Char) (offset : Nat) : ∃ before start behind,
    (ofText text).starts = before ++ start :: behind ∧ (ofText text).lineAt offset = before.length + 1 ∧
      start ≤ offset ∧ ∀ next ∈ behind.head?, offset < next := by
  let early (start : Nat) : Bool := start ≤ offset
  have parts : (ofText text).starts.takeWhile early ++ (ofText text).starts.dropWhile early = (ofText text).starts :=
    List.takeWhile_append_dropWhile
  have first : (ofText text).starts.takeWhile early ≠ [] := by
    simp [ofText, early]
  have last := List.dropLast_concat_getLast first
  use ((ofText text).starts.takeWhile early).dropLast, ((ofText text).starts.takeWhile early).getLast first,
    (ofText text).starts.dropWhile early
  refine ⟨?_, ?_, ?_, ?_⟩
  · rw [List.append_cons, last, parts]
  · have some := List.length_pos_of_ne_nil first
    rw [List.length_dropLast, Nat.sub_add_cancel some]
    rfl
  · have all : ((ofText text).starts.takeWhile early).all early = true := List.all_takeWhile
    exact of_decide_eq_true (List.all_eq_true.mp all _ (List.getLast_mem first))
  · intro next here
    have stops := List.head?_dropWhile_not early (ofText text).starts
    rw [Option.mem_def.mp here] at stops
    exact Nat.not_le.mp (of_decide_eq_false stops)

/-- Where the line of a place starts, and what stands between its start and the place. -/
theorem exists_word_before (reaches : (Cursor.start text).Reaches place) : ∃ first word,
    (Cursor.start text).Reaches first ∧ first.rest = word ++ place.rest ∧
      place.offset = first.offset + byteLength word ∧
      (ofText text).start? ((ofText text).lineAt place.offset) = some first.offset ∧
      (ofText text).position text place.offset = ⟨(ofText text).lineAt place.offset, utf16Length word⟩ := by
  obtain ⟨before, start, behind, parts, line, low, -⟩ := exists_line text place.offset
  have here : (ofText text).start? ((ofText text).lineAt place.offset) = some start := by
    simp [start?, line, parts]
  have marks : (Cursor.start text).Marks start := mem_starts_marks (by simp [parts])
  obtain ⟨first, reachesFirst, rfl⟩ := marks
  obtain ⟨word, rest, offset⟩ := reachesFirst.of_offset_le reaches low
  refine ⟨first, word, reachesFirst, rest, offset, here, ?_⟩
  rw [position, startOfLineAt, here, Option.getD_some, reachesFirst.slice_eq ⟨word, rest, offset⟩,
    Cursor.charsTo_of_append rest offset]

/-- A place is found again at its line and its column. -/
theorem offset?_position (reaches : (Cursor.start text).Reaches place) :
    (ofText text).offset? text ((ofText text).position text place.offset) = some place.offset := by
  obtain ⟨before, start, behind, parts, line, -, high⟩ := exists_line text place.offset
  obtain ⟨first, word, reachesFirst, rest, offset, here, position⟩ := exists_word_before reaches
  have next : (ofText text).start? ((ofText text).lineAt place.offset + 1) = behind.head? := by
    rw [start?, line, if_neg (Nat.succ_ne_zero _), parts, Nat.add_sub_cancel,
      List.getElem?_append_right (Nat.le_succ _), Nat.succ_sub (Nat.le_refl _), Nat.sub_self,
      List.getElem?_cons_succ, List.head?_eq_getElem?]
  have stop : place.offset ≤ behind.head?.getD (byteLength text) := by
    cases found : behind.head? with
    | none =>
        have inside := reaches.marks.le_ends
        rwa [Cursor.ends, Cursor.start, Nat.zero_add] at inside
    | some next => exact Nat.le_of_lt (high next found)
  obtain ⟨more, further⟩ := Nat.exists_eq_add_of_le stop
  have whole : slice text first.offset (place.offset + more) = word ++ takeBytes more place.rest := by
    obtain ⟨front, parts', there⟩ := reachesFirst
    have behindFront : dropBytes first.offset text = first.rest := by
      rw [there, Cursor.start, Nat.zero_add]
      exact (congrArg _ parts').trans (dropBytes_byteLength front first.rest)
    have length : place.offset + more - first.offset = byteLength word + more := by omega
    rw [slice, behindFront, length, rest, takeBytes_append]
  rw [offset?, position]
  simp only [here, next, further, whole, offsetInLine_append, Option.bind_eq_bind, Option.bind_some]
  rw [offset]

/-! ### The order of positions -/

/-- A later offset lies on no earlier line. -/
theorem lineAt_le_lineAt (t : LineTable) {first second : Nat} (ordered : first ≤ second) :
    t.lineAt first ≤ t.lineAt second := by
  unfold lineAt
  induction t.starts with
  | nil => exact Nat.le_refl 0
  | cons start rest ih =>
      by_cases early : start ≤ first
      · simpa [early, early.trans ordered] using ih
      · simp [early]

/-- Of two places on a line the later one has the greater column. -/
theorem column_lt_column {first second : Cursor} (reaches : (Cursor.start text).Reaches first)
    (reaches' : (Cursor.start text).Reaches second) (less : first.offset < second.offset)
    (same : (ofText text).lineAt first.offset = (ofText text).lineAt second.offset) :
    ((ofText text).position text first.offset).column < ((ofText text).position text second.offset).column := by
  obtain ⟨opening, word, reachesOpening, rest, -, starts, position⟩ := exists_word_before reaches
  obtain ⟨opening', word', reachesOpening', rest', -, starts', position'⟩ := exists_word_before reaches'
  obtain rfl : opening = opening' := by
    rw [same, starts'] at starts
    exact reachesOpening.eq_of_offset reachesOpening' (Option.some.inj starts).symm
  obtain ⟨more, further, there⟩ := reaches.of_offset_le reaches' (Nat.le_of_lt less)
  -- Both words begin where the line starts, so the longer one is the shorter one and what lies between the places.
  obtain rfl : word' = word ++ more := by
    rw [rest', further, ← List.append_assoc] at rest
    exact List.append_cancel_right rest
  rw [position, position', utf16Length_append]
  cases more with
  | nil =>
      rw [byteLength] at there
      omega
  | cons c cs =>
      exact Nat.lt_add_of_pos_right (Nat.add_pos_left (utf16Size_pos c) _)

end LineTable

/-- A position comes before those of later lines, and before those behind it on its line. -/
def Position.Before (p q : Position) : Prop :=
  p.line < q.line ∨ p.line = q.line ∧ p.column < q.column

instance (p q : Position) : Decidable (p.Before q) :=
  inferInstanceAs (Decidable (p.line < q.line ∨ p.line = q.line ∧ p.column < q.column))

open LineTable

/-- Places and their positions determine each other, and come in the same order. -/
theorem positions_follow_places (text : List Char) :
    (∀ place, IsBoundary text place →
      (ofText text).offset? text ((ofText text).position text place) = some place) ∧
    ∀ first second, IsBoundary text first → IsBoundary text second → first < second →
      ((ofText text).position text first).Before ((ofText text).position text second) := by
  constructor
  · intro place boundary
    obtain ⟨cursor, reaches, rfl⟩ := boundary.marks
    exact offset?_position reaches
  · intro first second boundary boundary' less
    obtain ⟨cursor, reaches, rfl⟩ := boundary.marks
    obtain ⟨cursor', reaches', rfl⟩ := boundary'.marks
    rcases Nat.lt_or_eq_of_le ((ofText text).lineAt_le_lineAt (Nat.le_of_lt less)) with earlier | same
    · exact .inl earlier
    · exact .inr ⟨same, column_lt_column reaches reaches' less same⟩

/-- A carriage return with its line feed, a character of two units, a carriage return alone, and the two separators. -/
def mixedLines : List Char :=
  "a\r\n😀b\r\u2028c\u2029".toList

/-- The place between a carriage return and its line feed, the one behind a character of two units, and the end. -/
theorem positions_of_mixedLines :
    IsBoundary mixedLines 2 ∧ IsBoundary mixedLines 7 ∧ IsBoundary mixedLines 16 ∧
      (ofText mixedLines).offset? mixedLines ⟨1, 2⟩ = some 2 ∧ (ofText mixedLines).offset? mixedLines ⟨2, 2⟩ = some 7 ∧
      (ofText mixedLines).offset? mixedLines ⟨5, 0⟩ = some 16 ∧
      (⟨1, 2⟩ : Position).Before ⟨2, 2⟩ ∧ (⟨2, 2⟩ : Position).Before ⟨5, 0⟩ := by
  have split : IsBoundary mixedLines 2 := ⟨"a\r".toList, "\n😀b\r\u2028c\u2029".toList, by decide, by decide⟩
  have wide : IsBoundary mixedLines 7 := ⟨"a\r\n😀".toList, "b\r\u2028c\u2029".toList, by decide, by decide⟩
  have last : IsBoundary mixedLines 16 := ⟨mixedLines, [], by decide, by decide⟩
  obtain ⟨found, ordered⟩ := positions_follow_places mixedLines
  have atSplit : (ofText mixedLines).position mixedLines 2 = ⟨1, 2⟩ := by decide
  have atWide : (ofText mixedLines).position mixedLines 7 = ⟨2, 2⟩ := by decide
  have atLast : (ofText mixedLines).position mixedLines 16 = ⟨5, 0⟩ := by decide
  refine ⟨split, wide, last, ?_, ?_, ?_, ?_, ?_⟩
  · rw [← atSplit, found 2 split]
  · rw [← atWide, found 7 wide]
  · rw [← atLast, found 16 last]
  · rw [← atSplit, ← atWide]
    exact ordered 2 7 split wide (by decide)
  · rw [← atWide, ← atLast]
    exact ordered 7 16 wide last (by decide)

end BindingRepair.Text
