/-
# Searches come to an end

The searches for what stands far behind the current token pass at least one character with each step, so
a bound above the number of characters left is never used up. Brackets are closed only where one is open.
-/

import BindingRepair.Proofs.Termination.Tokens

set_option synthInstance.maxSize 20000
set_option synthInstance.maxHeartbeats 100000

namespace BindingRepair.Script

open Text

/-! ### Steps of a search -/

theorem Token.not_isNone {t : Token} {kind : TokenKind} (here : t.kind = kind) (text : kind ≠ .endOfText)
    (valid : kind ≠ .invalid) : ¬ t.IsNone := by
  rw [IsNone, here]
  exact not_or.mpr ⟨text, valid⟩

section Steps

variable {place : Cursor} {n : Nat} (enough : place.rest.length < n + 1) (some : ¬ (Token.read place).IsNone)
include enough some

/-- Behind what fills the text from a token on that holds something, fewer characters are left. -/
theorem Token.length_lt_of_fills {last : Cursor} (fills : (read place).first.Fills last) :
    last.rest.length < n := by
  have left : (read place).first.rest ≠ [] := mt (isNone_read place) some
  have passes := (reaches_read place).trans_passes (fills.passes left)
  exact Nat.lt_of_lt_of_le passes.length_lt (Nat.le_of_lt_succ enough)

theorem Token.length_last_read : (read place).last.rest.length < n :=
  length_lt_of_fills enough some (covers_read place).fills

/-- The same holds for what the token is read as again. -/
theorem Token.length_last_reread (again : Token → Token) [rereads : Rereads again] :
    (again (read place)).last.rest.length < n := by
  apply length_lt_of_fills enough some
  rw [← rereads.first]
  exact (rereads.covers _ (covers_read place)).fills

end Steps

namespace Grammar

variable {α β : Type} {origin : Cursor} {k need : Nat} {s : State} {c : Context}

/-! ### Searches -/

theorem arrowFollowsType_ne_none (depth : Nat) (place : Cursor) (steps : Nat)
    (enough : place.rest.length < steps) : arrowFollowsType depth place steps ≠ none := by
  fun_induction arrowFollowsType depth place steps with
  | case1 => exact absurd enough (Nat.not_lt_zero _)
  | case2 | case5 | case8 | case9 => exact nofun
  | case3 _ _ _ _ _ here _ ih | case4 _ _ _ _ _ here _ _ ih | case6 _ _ _ _ _ here _ _ _ _ ih
  | case7 _ _ _ _ _ here _ _ _ _ _ ih | case10 _ _ _ _ _ here _ _ _ _ _ _ ih =>
      apply ih
      apply Token.length_last_read enough
      simp only [Bool.or_eq_true, beq_iff_eq, not_or] at here
      exact not_or.mpr here.1

theorem arrowFollowsParameters_ne_none {place : Cursor} (enough : place.rest.length < c.bound) :
    arrowFollowsParameters c place ≠ none := by
  unfold arrowFollowsParameters
  dsimp only
  split
  · exact Option.some_ne_none _
  · split
    · rename_i colon
      simp only [Token.isPunctuator, Bool.and_eq_true, beq_iff_eq] at colon
      apply arrowFollowsType_ne_none
      exact Token.length_last_read (Nat.lt_succ_of_lt enough) (Token.not_isNone colon.2.1 (by decide) (by decide))
    · exact Option.some_ne_none _

/-- A bracket is closed only where it is not the outermost one. -/
theorem arrowFollowsParens_ne_none (depth : Nat) (templates : List Nat) (operand : Bool) (place : Cursor)
    (steps : Nat) (opened : 0 < depth) (enough : place.rest.length < steps) (few : steps ≤ c.bound) :
    arrowFollowsParens c depth templates operand place steps ≠ none := by
  fun_induction arrowFollowsParens c depth templates operand place steps with
  | case1 => exact absurd enough (Nat.not_lt_zero _)
  | case2 | case3 | case7 | case12 | case13 | case17 => exact nofun
  | case8 | case14 => exact absurd opened (Nat.not_lt_zero _)
  | case4 _ _ _ _ _ _ here ih | case18 _ _ _ _ _ _ here _ _ _ _ ih =>
      have some := Token.not_isNone here nofun nofun
      exact ih opened (Token.length_last_read enough some) (Nat.le_of_succ_le few)
  | case5 _ _ _ _ _ _ here _ ih =>
      have some := Token.not_isNone here nofun nofun
      exact ih (Nat.succ_pos _) (Token.length_last_read enough some) (Nat.le_of_succ_le few)
  | case6 _ _ _ _ _ _ here =>
      have some := Token.not_isNone here nofun nofun
      apply arrowFollowsParameters_ne_none
      exact Nat.lt_of_lt_of_le (Token.length_last_read enough some) (Nat.le_of_succ_le few)
  | case9 _ _ _ _ _ here _ _ outer inner ih | case15 _ _ _ _ _ here _ _ _ outer _ inner ih =>
      have some := Token.not_isNone here nofun nofun
      have opened : 0 < outer := by
        simp only [beq_iff_eq] at inner
        omega
      exact ih opened (Token.length_last_read enough some) (Nat.le_of_succ_le few)
  | case10 _ _ _ _ _ _ here _ _ _ _ _ _ ih | case11 _ _ _ _ _ _ here _ _ _ _ _ _ ih =>
      have some := Token.not_isNone here nofun nofun
      exact ih opened (Token.length_last_reread enough some Token.asTemplateContinuation) (Nat.le_of_succ_le few)
  | case16 _ _ _ _ _ _ here _ _ _ _ _ _ ih =>
      have some := Token.not_isNone here nofun nofun
      exact ih opened (Token.length_last_reread enough some Token.asRegex) (Nat.le_of_succ_le few)
  | case19 _ _ _ _ _ _ text valid _ _ ih =>
      exact ih opened (Token.length_last_read enough (not_or.mpr ⟨text, valid⟩)) (Nat.le_of_succ_le few)

theorem typeParametersEnd?_shrinks {depth : Nat} {place closing : Cursor} {steps : Nat}
    (found : typeParametersEnd? depth place steps = some (some closing)) :
    closing.rest.length ≤ place.rest.length := by
  have reaches (place : Cursor) : (Token.read place).last.rest.length ≤ place.rest.length :=
    ((Token.reaches_read place).trans (Token.covers_read place).fills.reaches).length_le
  fun_induction typeParametersEnd? depth place steps with
  | case1 | case2 | case3 | case7 => cases found
  | case5 _ place =>
      cases found
      exact reaches place
  | case4 _ place _ _ _ _ ih | case6 _ place _ _ _ _ _ _ _ ih | case8 _ place _ _ _ _ _ _ ih
  | case9 _ place _ _ _ _ _ ih => exact Nat.le_trans (ih found) (reaches place)

theorem typeParametersEnd?_ne_none (depth : Nat) (place : Cursor) (steps : Nat)
    (enough : place.rest.length < steps) : typeParametersEnd? depth place steps ≠ none := by
  fun_induction typeParametersEnd? depth place steps with
  | case1 => exact absurd enough (Nat.not_lt_zero _)
  | case2 | case3 | case5 | case7 => exact nofun
  | case4 _ _ _ _ here _ ih | case6 _ _ _ _ here _ _ _ _ ih | case8 _ _ _ _ here _ _ _ ih =>
      apply ih
      exact Token.length_last_read enough (Token.not_isNone here nofun nofun)
  | case9 _ _ _ _ text valid _ ih =>
      apply ih
      exact Token.length_last_read enough (not_or.mpr ⟨text, valid⟩)

theorem opensArrowParameters_ne_none {place : Cursor} (enough : place.rest.length < c.bound) :
    opensArrowParameters c place ≠ none :=
  arrowFollowsParens_ne_none 1 [] false place c.bound Nat.one_pos enough (Nat.le_refl _)

theorem opensGenericArrow_ne_none {place : Cursor} (enough : place.rest.length < c.bound) :
    opensGenericArrow c place ≠ none := by
  unfold opensGenericArrow
  dsimp only
  split
  · exact Option.some_ne_none _
  · split
    · rename_i none
      exact absurd none (typeParametersEnd?_ne_none 1 place c.bound enough)
    · exact Option.some_ne_none _
    · rename_i closing found
      split
      · rename_i paren
        simp only [Token.isPunctuator, Bool.and_eq_true, beq_iff_eq] at paren
        have shorter := typeParametersEnd?_shrinks found
        apply opensArrowParameters_ne_none
        exact Token.length_last_read (Nat.lt_succ_of_lt (by omega)) (Token.not_isNone paren.1 (by decide) (by decide))
      · exact Option.some_ne_none _

/-- In a state the parser answers and leaves everything as it is. -/
class Answers (c : Context) (s : State) (p : Parser α) : Prop where
  answers : ∃ a, p c s = .ok a s

section Answers

variable {p q : Parser α} {f : α → Parser β}

instance (a : α) : Answers c s (pure a) where
  answers := ⟨a, rfl⟩

theorem Answers.bind {a : α} (first : p c s = .ok a s) (rest : Answers c s (f a)) : Answers c s (p >>= f) where
  answers := by
    rw [bind_ok first]
    exact rest.answers

instance [first : Answers c s p] [rest : ∀ a, Answers c s (f a)] : Answers c s (p >>= f) :=
  have ⟨a, result⟩ := first.answers
  .bind result (rest a)

instance {f : Token → Parser β} [rest : Answers c s (f s.token.following)] : Answers c s (peek >>= f) :=
  .bind peek_apply rest

instance {f : Token × Token → Parser β}
    [rest : Answers c s (f (s.token.following, s.token.following.following))] : Answers c s (peekTwo >>= f) :=
  .bind rfl rest

instance {test : Prop} [Decidable test] [yes : Answers c s p] [no : Answers c s q] :
    Answers c s (if test then p else q) := by
  split
  · exact yes
  · exact no

theorem answers_answer {found : Option α} (some : found ≠ none) : Answers c s (answer found) where
  answers := by
    have ⟨a, here⟩ := Option.ne_none_iff_exists'.mp some
    rw [here]
    exact ⟨a, rfl⟩

end Answers

/-- It is found out whether an arrow function begins. -/
theorem answers_arrowAhead (valid : s.Valid origin) (bound : s.left + 2 ≤ c.bound) :
    Answers c s arrowAhead := by
  have near : s.token.last.rest.length < c.bound := by
    have shorter := (valid.sound.token.trans valid.sound.covers.fills.reaches).length_le
    unfold State.left at bound
    omega
  have far : s.token.following.last.rest.length < c.bound := by
    have reaches := (Token.reaches_read s.token.last).trans (Token.covers_read s.token.last).fills.reaches
    exact Nat.lt_of_le_of_lt reaches.length_le near
  have opens := answers_answer (c := c) (s := s) (opensArrowParameters_ne_none near)
  have opensBehind := answers_answer (c := c) (s := s) (opensArrowParameters_ne_none far)
  have opensGeneric := answers_answer (c := c) (s := s) (opensGenericArrow_ne_none near)
  unfold arrowAhead
  apply Answers.bind read_apply
  apply Answers.bind currentToken_apply
  infer_instance

instance : Halts k need arrowAhead where
  ends _ c s valid bound _ := by
    have ⟨_, result⟩ := (answers_arrowAhead valid bound).answers
    rw [result]
    exact ⟨valid, .refl s⟩

/-- Where no token is left no arrow function begins. -/
theorem arrowAhead_of_atEnd (ends : s.AtEnd) : arrowAhead c s = .ok none s := by
  have none := ends.isNone
  simp [arrowAhead, bind_apply, none.isWord, none.isPunctuator]

instance {f : Option Bool → Parser β} [rest : Fails k need (f none)] : Fails k need (arrowAhead >>= f) where
  fails origin c s valid bound calls ends := by
    rw [bind_ok (arrowAhead_of_atEnd ends)]
    exact rest.fails origin c s valid bound calls ends

end Grammar

end BindingRepair.Script
