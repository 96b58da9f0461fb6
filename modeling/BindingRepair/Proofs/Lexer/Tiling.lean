/-
# Tokens and gaps are the whole text

Reading one token behind the other gets to the end of the text with no more tokens than characters. Each token but the
last covers at least one character, what is skipped in front of it are blanks and comments, and put together in order
these are the text.
-/

import BindingRepair.Proofs.Grammar.WellFormed
import BindingRepair.Proofs.Lexer.Trivia
import Mathlib.Data.Nat.Find

namespace BindingRepair.Script

open Text Cursor

/-- Where the reader of a text stands after some tokens. -/
def standAfter (text : List Char) : Nat → Cursor
  | 0 => start text
  | k + 1 => (Token.read (standAfter text k)).last

/-- The token that is read after some others. -/
def tokenAfter (text : List Char) (k : Nat) : Token :=
  Token.read (standAfter text k)

/-- What stands in front of the token that is read after some others. -/
def gapAfter (text : List Char) (k : Nat) : List Char :=
  slice text (standAfter text k).offset (tokenAfter text k).start

/-! ### One token -/

theorem Token.first_read (place : Cursor) : (Token.read place).first = (skipTrivia place).2 :=
  Token.first_readAt _ _

theorem Token.newlineBefore_read (place : Cursor) : (Token.read place).newlineBefore = (skipTrivia place).1 := by
  unfold Token.read
  dsimp only
  rw [Token.readAt_newline]

/-- A token that does not begin as names do is no identifier, nor is it the end of the text. -/
theorem Token.kind_readAt_ne (newline : Bool) {place : Cursor} {c : Char} {cs : List Char}
    (here : place.rest = c :: cs) (other : (opensName c || c == '\\') = false) :
    (Token.readAt newline place).kind ≠ .identifier ∧ (Token.readAt newline place).kind ≠ .endOfText := by
  have kind := Token.kind_readAt_mem newline here other
  exact ⟨ne_of_mem_of_not_mem kind (by decide), ne_of_mem_of_not_mem kind (by decide)⟩

/-- Only where the text ends no token is read. -/
theorem Token.kind_readAt_eq_endOfText_iff (newline : Bool) (place : Cursor) :
    (Token.readAt newline place).kind = .endOfText ↔ place.rest = [] := by
  cases here : place.rest with
  | nil => simp [Token.readAt, here, Token.atEnd]
  | cons c cs =>
      refine iff_of_false (fun ends => ?_) (List.cons_ne_nil c cs)
      cases opens : opensName c || c == '\\' with
      | false => exact (Token.kind_readAt_ne newline here opens).2 ends
      | true =>
          simp only [Token.readAt, here, opens, if_true] at ends
          split at ends
          · cases ends
          · cases ends

variable {text : List Char}

theorem reaches_standAfter (text : List Char) (k : Nat) : (start text).Reaches (standAfter text k) := by
  induction k with
  | zero => exact .refl _
  | succ k ih => exact (ih.trans (Token.reaches_read _)).trans (Token.covers_read _).fills.reaches

theorem reaches_tokenAfter (text : List Char) (k : Nat) : (start text).Reaches (tokenAfter text k).first :=
  (reaches_standAfter text k).trans (Token.reaches_read _)

theorem covers_tokenAfter (text : List Char) (k : Nat) : (tokenAfter text k).Covers :=
  Token.covers_read _

theorem kind_tokenAfter_eq_endOfText_iff {k : Nat} :
    (tokenAfter text k).kind = .endOfText ↔ (tokenAfter text k).first.rest = [] := by
  rw [tokenAfter, Token.first_read]
  exact Token.kind_readAt_eq_endOfText_iff _ _

/-- What is skipped in front of a token. -/
theorem crosses_gapAfter (text : List Char) (k : Nat) : ∃ closed,
    IsSkipped (standAfter text k).offset (tokenAfter text k).first.rest closed (gapAfter text k) ∧
      Crosses (standAfter text k) false (skipTrivia (standAfter text k)) closed (gapAfter text k) := by
  obtain ⟨closed, skipped, is, crosses⟩ := exists_isSkipped (standAfter text k)
  have gap : gapAfter text k = skipped := by
    have slice := (reaches_standAfter text k).slice_eq (Token.reaches_read (standAfter text k))
    rw [Token.first_read, charsTo_of_append crosses.rest crosses.offset] at slice
    rw [gapAfter, tokenAfter, Token.start, Token.first_read, slice]
  rw [gap, tokenAfter, Token.first_read]
  exact ⟨closed, is, crosses⟩

/-- A token covers what stands between its ends. -/
theorem rest_tokenAfter (text : List Char) (k : Nat) :
    (tokenAfter text k).first.rest = (tokenAfter text k).span.chars text ++ (standAfter text (k + 1)).rest := by
  have covers := covers_tokenAfter text k
  obtain ⟨word, rest, offset⟩ := covers.fills.reaches
  have chars := (reaches_tokenAfter text k).slice_eq covers.fills.reaches
  rw [charsTo_of_append rest offset] at chars
  rw [Span.chars, Token.span]
  exact rest.trans (congrArg (· ++ _) chars.symm)

theorem rest_standAfter (text : List Char) (k : Nat) :
    (standAfter text k).rest =
      gapAfter text k ++ (tokenAfter text k).span.chars text ++ (standAfter text (k + 1)).rest := by
  obtain ⟨closed, -, crosses⟩ := crosses_gapAfter text k
  rw [crosses.rest, List.append_assoc, ← rest_tokenAfter, tokenAfter, Token.first_read]

/-- Where nothing is left to read the end of the text is read. -/
theorem kind_tokenAfter_of_rest_eq_nil {k : Nat} (none : (standAfter text k).rest = []) :
    (tokenAfter text k).kind = .endOfText := by
  rw [rest_standAfter, List.append_assoc, ← rest_tokenAfter] at none
  exact kind_tokenAfter_eq_endOfText_iff.mpr (List.append_eq_nil_iff.mp none).2

/-! ### All tokens -/

/-- Before the end of the text each token takes at least one character. -/
theorem length_standAfter_add_le {k : Nat} (more : ∀ j < k, (tokenAfter text j).kind ≠ .endOfText) :
    (standAfter text k).rest.length + k ≤ text.length := by
  induction k with
  | zero => exact Nat.le_refl _
  | succ k ih =>
      have before := ih fun j less => more j (Nat.lt_succ_of_lt less)
      have some : (tokenAfter text k).first.rest ≠ [] := fun none =>
        more k (Nat.lt_succ_self k) (kind_tokenAfter_eq_endOfText_iff.mpr none)
      have passes := (Token.reaches_read (standAfter text k)).trans_passes ((covers_tokenAfter text k).fills.passes some)
      have shorter : (standAfter text (k + 1)).rest.length < (standAfter text k).rest.length := passes.length_lt
      omega

/-- The end of the text is reached. -/
theorem exists_endOfText (text : List Char) : ∃ n ≤ text.length,
    (tokenAfter text n).kind = .endOfText ∧ ∀ k < n, (tokenAfter text k).kind ≠ .endOfText := by
  have ends : ∃ n, (tokenAfter text n).kind = .endOfText := by
    by_contra never
    have bound : (standAfter text (text.length + 1)).rest.length + (text.length + 1) ≤ text.length :=
      length_standAfter_add_le fun j _ is => never ⟨j, is⟩
    omega
  have before : ∀ k < Nat.find ends, (tokenAfter text k).kind ≠ .endOfText := fun k less => Nat.find_min ends less
  have bound := length_standAfter_add_le before
  exact ⟨Nat.find ends, by omega, Nat.find_spec ends, before⟩

/-- Behind the end of the text nothing stands. -/
theorem rest_standAfter_of_lt {n k : Nat} (ends : (tokenAfter text n).kind = .endOfText) (later : n < k) :
    (standAfter text k).rest = [] := by
  induction k, later using Nat.le_induction with
  | base =>
      have rest := rest_tokenAfter text n
      rw [kind_tokenAfter_eq_endOfText_iff.mp ends] at rest
      exact (List.append_eq_nil_iff.mp rest.symm).2
  | succ k _ ih =>
      have rest := rest_standAfter text k
      rw [ih] at rest
      exact (List.append_eq_nil_iff.mp rest.symm).2

/-- The first gaps and tokens are what has been read so far. -/
theorem eq_flatMap_append (text : List Char) (n : Nat) :
    text = ((List.range n).flatMap fun k => gapAfter text k ++ (tokenAfter text k).span.chars text) ++
      (standAfter text n).rest := by
  induction n with
  | zero => rfl
  | succ n ih =>
      rw [List.range_succ, List.flatMap_append, List.flatMap_singleton, List.append_assoc, ← rest_standAfter]
      exact ih

/-- How a token and what stands in front of it lie in the text. -/
structure FitsIn (text : List Char) (k : Nat) : Prop where
  /-- The token begins no earlier than the one before ends. -/
  starts : (standAfter text k).offset ≤ (tokenAfter text k).start
  /-- The reader stands where the token ends. -/
  stops : (standAfter text (k + 1)).offset = (tokenAfter text k).stop
  nonempty : (tokenAfter text k).kind ≠ .endOfText → (tokenAfter text k).start < (tokenAfter text k).stop
  startBoundary : IsBoundary text (tokenAfter text k).start
  stopBoundary : IsBoundary text (tokenAfter text k).stop
  /-- In front of the token stand blanks and comments. All of these are complete unless the text ends here. -/
  gap : ∃ closed, IsSkipped (standAfter text k).offset (tokenAfter text k).first.rest closed (gapAfter text k) ∧
    (closed = false → (tokenAfter text k).kind = .endOfText)

theorem fitsIn (text : List Char) (k : Nat) : FitsIn text k where
  starts := (Token.reaches_read _).offset_le
  stops := rfl
  nonempty more :=
    ((covers_tokenAfter text k).fills.passes fun none => more (kind_tokenAfter_eq_endOfText_iff.mpr none)).offset_lt
  startBoundary := (reaches_tokenAfter text k).marks.isBoundary
  stopBoundary := (reaches_standAfter text (k + 1)).marks.isBoundary
  gap := by
    obtain ⟨closed, is, -⟩ := crosses_gapAfter text k
    refine ⟨closed, is, ?_⟩
    rintro rfl
    exact kind_tokenAfter_eq_endOfText_iff.mpr is.rest_eq_nil

/-- The tokens of a text and the gaps between them are the text, and there are no more of them than characters. -/
theorem tokens_tile_text (text : List Char) : ∃ n ≤ text.length,
    (tokenAfter text n).kind = .endOfText ∧ (∀ k < n, (tokenAfter text k).kind ≠ .endOfText) ∧
      (∀ k, FitsIn text k) ∧
      text = (List.range (n + 1)).flatMap fun k => gapAfter text k ++ (tokenAfter text k).span.chars text := by
  obtain ⟨n, bound, ends, before⟩ := exists_endOfText text
  refine ⟨n, bound, ends, before, fitsIn text, ?_⟩
  have whole := eq_flatMap_append text (n + 1)
  rwa [rest_standAfter_of_lt ends (Nat.lt_succ_self n), List.append_nil] at whole

end BindingRepair.Script
