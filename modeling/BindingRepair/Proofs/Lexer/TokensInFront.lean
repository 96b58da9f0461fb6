/-
# Tokens in front of a name

A token that ends in front of a name is the same token in front of another name, and so are all tokens from the
beginning of the text on. Only a number may go on with the name that it touches, and a backslash may open an escape.
-/

import BindingRepair.Proofs.Lexer.Locality
import BindingRepair.Proofs.Lexer.Tiling

namespace BindingRepair.Script

open Text Cursor

variable {behind behind' : List Char} {a b c : Cursor}

/-! ### Gaps -/

/-- What begins no comment in front of one name begins none in front of another one. -/
theorem stopsTrivia_congr (begins' : BeginsName behind') {c : Char} {more : List Char}
    (stops : StopsTrivia (c :: (more ++ behind))) : StopsTrivia (c :: (more ++ behind')) := by
  obtain ⟨visible, comment⟩ := stopsTrivia_cons_iff.mp stops
  refine stopsTrivia_cons_iff.mpr ⟨visible, fun opens => comment ⟨opens.1, ?_⟩⟩
  refine opens.2.imp (fun head => ?_) fun head => ?_
  · obtain ⟨cs, parts⟩ := List.head?_eq_some_iff.mp head
    obtain ⟨more, rfl⟩ := begins'.append_eq_cons (by decide) parts
    rfl
  · obtain ⟨cs, parts⟩ := List.head?_eq_some_iff.mp head
    obtain ⟨more, rfl⟩ := begins'.append_eq_cons (by decide) parts
    rfl

/-- Where the text begins, a hash and an exclamation mark are skipped. -/
theorem length_skipTrivia_hashbang (cs : List Char) :
    (skipTrivia ⟨0, '#' :: '!' :: cs⟩).2.rest.length ≤ cs.length := by
  have opens : skipTrivia ⟨0, '#' :: '!' :: cs⟩ = triviaEnd .lineComment false 0 ('#' :: '!' :: cs) := by
    simp [skipTrivia, startsWith, List.isPrefixOf]
  have mark : triviaEnd .lineComment false 0 ('#' :: '!' :: cs) = triviaEnd .lineComment false 2 cs := by
    rw [triviaEnd_lineComment_cons, if_neg (by decide), triviaEnd_lineComment_cons, if_neg (by decide)]
    rfl
  rw [opens, mark]
  exact (reaches_triviaEnd .lineComment false 2 cs).length_le

theorem skipTrivia_append_congr (begins' : BeginsName behind') {gap more : List Char} {offset : Nat} {x : Char}
    (there : (skipTrivia ⟨offset, gap ++ x :: (more ++ behind)⟩).2.rest = x :: (more ++ behind)) :
    skipTrivia ⟨offset, gap ++ x :: (more ++ behind')⟩ =
      ((skipTrivia ⟨offset, gap ++ x :: (more ++ behind)⟩).1, ⟨offset + byteLength gap, x :: (more ++ behind')⟩) := by
  have stops := stopsTrivia_skipTrivia ⟨offset, gap ++ x :: (more ++ behind)⟩
  rw [there] at stops
  have visible := (stopsTrivia_cons_iff.mp stops).1
  refine skipTrivia_congr there (fun ends => ?_) (stopsTrivia_congr begins' stops) ?_
  · have terminates : isLineTerminator x = true := ends x rfl
    simp [isGapChar, terminates] at visible
  · rintro rfl rfl ⟨cs, parts⟩
    obtain ⟨rfl, bang⟩ := List.cons.inj parts
    obtain ⟨more, rfl⟩ := begins'.append_eq_cons (by decide) bang.symm
    have shorter := length_skipTrivia_hashbang (more ++ behind)
    rw [List.nil_append, List.cons_append] at there
    rw [there] at shorter
    exact Nat.not_succ_le_self _ (Nat.le_of_succ_le shorter)

theorem alike_skipTrivia (alike : Alike behind behind' a b) (begins' : BeginsName behind')
    (inFront : behind.length < (skipTrivia a).2.rest.length) :
    (skipTrivia b).1 = (skipTrivia a).1 ∧ Alike behind behind' (skipTrivia a).2 (skipTrivia b).2 := by
  obtain ⟨gap, parts, place⟩ := reaches_skipTrivia a
  obtain ⟨_, rest⟩ := a
  obtain ⟨offset, rest'⟩ := b
  obtain ⟨rfl, word, rfl, rfl⟩ := alike
  obtain ⟨tail, rfl, there⟩ := exists_append_of_length_le gap parts (Nat.le_of_lt inFront)
  obtain ⟨x, more, rfl⟩ : ∃ x more, tail = x :: more := by
    refine List.exists_cons_of_ne_nil ?_
    rintro rfl
    rw [there] at inFront
    exact absurd inFront (Nat.lt_irrefl _)
  dsimp only at place there ⊢
  rw [List.append_assoc, List.cons_append] at place there ⊢
  rw [List.append_assoc, List.cons_append, skipTrivia_append_congr begins' there]
  exact ⟨rfl, place.symm, x :: more, there, rfl⟩

/-! ### Tokens -/

namespace Token

/-- The tokens are the same and stand at the same place, with other texts behind them. -/
structure Alike (behind behind' : List Char) (t u : Token) : Prop where
  kind : u.kind = t.kind
  text : u.text = t.text
  newlineBefore : u.newlineBefore = t.newlineBefore
  escaped : u.escaped = t.escaped
  first : Cursor.Alike behind behind' t.first u.first
  last : Cursor.Alike behind behind' t.last u.last

/-- The token ends in front of the text behind and does not go on with it: a number does not touch the text, and no
backslash stands behind a name. -/
structure EndsBefore (behind : List Char) (t : Token) : Prop where
  valid : t.kind ≠ .invalid
  inFront : behind.length ≤ t.last.rest.length
  number : t.kind = .number → behind.length < t.last.rest.length
  name : t.kind = .identifier ∨ t.kind = .privateName → t.last.peek? ≠ some '\\'

theorem EndsBefore.lt_first {t : Token} (ends : t.EndsBefore behind) (covers : t.Covers) (begins : BeginsName behind) :
    behind.length < t.first.rest.length := by
  have further := covers.fills.reaches.length_le
  obtain ⟨c, cs, rfl, -⟩ := begins
  have more : t.first.rest ≠ [] := by
    rintro none
    have nothing := ends.inFront.trans further
    rw [none] at nothing
    exact absurd nothing (Nat.not_succ_le_zero _)
  exact Nat.lt_of_le_of_lt ends.inFront (covers.fills.passes more).length_lt

/-- What ends in front of a name is of one kind in front of another name, and ends at the same place. -/
theorem ends_readAt (alike : Cursor.Alike behind behind' a b) (begins : BeginsName behind)
    (begins' : BeginsName behind') (newline : Bool) (ends : (readAt newline a).EndsBefore behind) :
    (readAt newline b).kind = (readAt newline a).kind ∧ (readAt newline b).escaped = (readAt newline a).escaped ∧
      Cursor.Alike behind behind' (readAt newline a).last (readAt newline b).last := by
  have here := ends.lt_first (covers_readAt newline a) begins
  rw [first_readAt] at here
  obtain ⟨c, cs, cs', rest, rest', next⟩ := alike.exists_cons here
  obtain ⟨more, parts, parts'⟩ : ∃ more, cs = more ++ behind ∧ cs' = more ++ behind' := by
    simpa [Cursor.next, rest, rest'] using next.rest
  have same : b.next.offset = a.next.offset := next.offset
  have digit : cs'.head?.any Char.isDigit = cs.head?.any Char.isDigit := by
    rw [parts, parts']
    exact any_isDigit_append begins begins' more
  have opens : cs'.head?.any opensName = cs.head?.any opensName := by
    rw [parts, parts']
    exact any_opensName_append begins begins' more
  unfold readAt at ends ⊢
  rw [rest] at ends ⊢
  rw [rest']
  dsimp only at ends ⊢
  rw [digit, opens, same]
  -- One case for each kind of token, by the character that it begins with.
  split at ends
  · rename_i names
    rw [if_pos names, if_pos names]
    split at ends
    · exact absurd rfl ends.valid
    · rename_i d e found
      obtain ⟨d', found', escaped, last⟩ := alike_name alike begins found ends.inFront (ends.name (.inl rfl))
      rw [found']
      exact ⟨rfl, escaped, last⟩
  · rename_i names
    rw [if_neg names, if_neg names]
    split at ends
    · rename_i number
      rw [if_pos number, if_pos number]
      exact ⟨rfl, rfl, alike_skipNumber alike begins begins' rest number (ends.number rfl)⟩
    · rename_i number
      rw [if_neg number, if_neg number]
      split at ends
      · rename_i quoted
        rw [if_pos quoted, if_pos quoted]
        obtain ⟨kind, last⟩ := alike_stringEnd begins begins' c a.next.offset parts.symm ends.inFront
        rw [parts']
        exact ⟨kind, rfl, last⟩
      · rename_i quoted
        rw [if_neg quoted, if_neg quoted]
        split at ends
        · rename_i quoted
          rw [if_pos quoted, if_pos quoted]
          obtain ⟨kind, last⟩ := alike_templateEnd begins begins' .full .head a.next.offset parts.symm ends.inFront
          rw [parts']
          exact ⟨kind, rfl, last⟩
        · rename_i quoted
          rw [if_neg quoted, if_neg quoted]
          split at ends
          · rename_i hash
            rw [if_pos hash, if_pos hash]
            have opened : a.next.peek?.any opensName = true := by
              simpa [Cursor.next, peek?, rest] using (Bool.and_eq_true_iff.mp hash).2
            exact ⟨rfl, rfl, alike_privateName next begins opened ends.inFront (ends.name (.inr rfl))⟩
          · rename_i hash
            rw [if_neg hash, if_neg hash]
            split at ends
            · rename_i last found
              obtain ⟨last', found', last⟩ := alike_pastPunctuator? alike begins begins' found
              rw [found']
              exact ⟨rfl, rfl, last⟩
            · exact absurd rfl ends.valid

theorem alike_readAt (alike : Cursor.Alike behind behind' a b) (begins : BeginsName behind)
    (begins' : BeginsName behind') (newline : Bool) (ends : (readAt newline a).EndsBefore behind) :
    Alike behind behind' (readAt newline a) (readAt newline b) := by
  obtain ⟨kind, escaped, last⟩ := ends_readAt alike begins begins' newline ends
  have covers := covers_readAt newline a
  have reaches := covers.fills.reaches
  rw [first_readAt] at reaches
  refine ⟨kind, ?_, ?_, escaped, ?_, last⟩
  · rw [covers.text, (covers_readAt newline b).text, first_readAt, first_readAt]
    exact alike.textTo last reaches
  · rw [readAt_newline newline a, readAt_newline newline b]
  · rwa [first_readAt, first_readAt]

/-- A token that ends in front of a name is read in front of another one. -/
theorem alike_read (alike : Cursor.Alike behind behind' a b) (begins : BeginsName behind)
    (begins' : BeginsName behind') (ends : (read a).EndsBefore behind) : Alike behind behind' (read a) (read b) := by
  have token (place : Cursor) : read place = readAt (skipTrivia place).1 (skipTrivia place).2 := rfl
  have inFront := ends.lt_first (covers_read a) begins
  rw [first_read] at inFront
  obtain ⟨newline, first⟩ := alike_skipTrivia alike begins' inFront
  rw [token a] at ends ⊢
  rw [token b, newline]
  exact alike_readAt first begins begins' _ ends

end Token

/-! ### Tokens in a row -/

/-- A reader of one text stands where one of the other text stands, as long as the tokens end in front of the name. -/
theorem alike_standAfter (begins : BeginsName behind) (begins' : BeginsName behind') (front : List Char) {k : Nat}
    (ends : ∀ j < k, (tokenAfter (front ++ behind) j).EndsBefore behind) :
    Cursor.Alike behind behind' (standAfter (front ++ behind) k) (standAfter (front ++ behind') k) := by
  induction k with
  | zero => exact alike_append behind behind' 0 front
  | succ k ih =>
      have before := ih fun j earlier => ends j (Nat.lt_succ_of_lt earlier)
      exact (Token.alike_read before begins begins' (ends k (Nat.lt_succ_self k))).last

/-- In front of another name the text is read token by token as it was. -/
theorem alike_tokenAfter (begins : BeginsName behind) (begins' : BeginsName behind') (front : List Char) {k : Nat}
    (ends : ∀ j ≤ k, (tokenAfter (front ++ behind) j).EndsBefore behind) :
    Token.Alike behind behind' (tokenAfter (front ++ behind) k) (tokenAfter (front ++ behind') k) := by
  have before := alike_standAfter begins begins' front fun j earlier => ends j (Nat.le_of_lt earlier)
  exact Token.alike_read before begins begins' (ends k (Nat.le_refl k))

end BindingRepair.Script
