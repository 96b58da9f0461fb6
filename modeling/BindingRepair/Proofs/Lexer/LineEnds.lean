/-
# Tokens and line endings

A token that is complete does not end within a line ending: its last character is none that ends a line.
-/

import BindingRepair.Proofs.Lexer.Reach

namespace BindingRepair.Script

open Text Cursor

variable {origin place : Cursor}

/-- Some characters that stand at a place, none of them a carriage return. -/
theorem splits_skip (mark : List Char) (nonempty : mark ≠ []) (other : '\r' ∉ mark) (here : mark <+: place.rest) :
    place.Splits (place.skip mark.length) := by
  induction mark generalizing place with
  | nil => exact absurd rfl nonempty
  | cons c cs ih =>
      obtain ⟨more, rest⟩ := here
      have first := splits_next rest.symm fun is => other (is ▸ List.mem_cons_self)
      cases cs with
      | nil => exact first
      | cons d ds =>
          refine first.reaches.trans_splits (ih (List.cons_ne_nil _ _) (fun later => other (.tail _ later)) ⟨more, ?_⟩)
          simp [Cursor.next, ← rest]

/-! ### Names and numbers -/

theorem isHexDigit_return : isHexDigit '\r' = false := by
  decide +kernel

theorem mayStand_return (first : Bool) : mayStand first '\r' = false := by
  cases first with
  | true => exact show opensName '\r' = false by decide +kernel
  | false => exact show continuesName '\r' = false by decide +kernel

theorem isDigitOf_return (base : Nat) : isDigitOf base '\r' = false := by
  unfold isDigitOf
  split
  · exact isHexDigit_return
  · rfl

theorem splits_pastEscape? {behind : Cursor} (found : pastEscape? place = some behind) : place.Splits behind := by
  obtain ⟨offset, rest⟩ := place
  unfold pastEscape? at found
  split at found
  · rename_i digits here
    dsimp only at here found
    split at found
    · rename_i closes
      have closing := (Bool.and_eq_true_iff.mp closes).2
      rw [← Option.some.inj found, here]
      have opening : Reaches ⟨offset, '\\' :: 'u' :: '{' :: digits⟩ ⟨offset + 3, digits⟩ :=
        ⟨['\\', 'u', '{'], rfl, rfl⟩
      obtain ⟨xs, brace⟩ := List.head?_eq_some_iff.mp (beq_iff_eq.mp closing)
      exact (opening.trans (reaches_skipWhile _ _)).trans_splits (splits_next brace (by decide))
    · cases found
  · rename_i w x y z rest _ here
    dsimp only at here found
    split at found
    · rename_i digits
      have reaches : Reaches ⟨offset, '\\' :: 'u' :: w :: x :: y :: z :: rest⟩ ⟨offset + 6, rest⟩ :=
        reaches_pastEscape? (by simp [pastEscape?, digits])
      rw [← Option.some.inj found, here]
      refine ⟨reaches, fun _ => ⟨['\\', 'u', w, x, y], z, rfl, ?_⟩⟩
      rintro rfl
      simp [isHexDigit_return] at digits
    · cases found
  · cases found

theorem splits_pastIdentifierChar? {first escaped : Bool} {behind : Cursor}
    (found : pastIdentifierChar? first place = some (behind, escaped)) : place.Splits behind := by
  unfold pastIdentifierChar? at found
  split at found
  · cases found
  · rename_i x here
    split at found
    · obtain ⟨d, there, same⟩ := Option.map_eq_some_iff.mp found
      rw [← (Prod.mk.inj same).1]
      exact splits_pastEscape? there
    · split at found
      · rename_i stands
        obtain ⟨xs, rest⟩ := List.head?_eq_some_iff.mp here
        rw [← (Prod.mk.inj (Option.some.inj found)).1]
        refine splits_next rest ?_
        rintro rfl
        rw [mayStand_return] at stands
        cases stands
      · cases found

theorem splits_skipIdentifier (first escaped : Bool) (splits : origin.Splits place) :
    origin.Splits (skipIdentifier first escaped place).1 := by
  fun_induction skipIdentifier first escaped place with
  | case1 => exact splits
  | case2 _ _ _ _ _ found ih => exact ih (splits.reaches.trans_splits (splits_pastIdentifierChar? found))

theorem splits_skipDigits (base : Nat) (splits : origin.Splits place) : origin.Splits (skipDigits base place) :=
  splits.skipWhile (by rw [isDigitOf_return]; rfl)

/-- One character that is looked at first and is no carriage return. -/
theorem splits_next_of_peek {p : Char → Bool} (other : p '\r' = false) (reaches : origin.Reaches place)
    (here : place.peek?.any p = true) : origin.Splits place.next := by
  cases rest : place.rest with
  | nil => simp [Cursor.peek?, rest] at here
  | cons x xs =>
      refine reaches.trans_splits (splits_next rest ?_)
      rintro rfl
      simp [Cursor.peek?, rest, other] at here

theorem splits_skipIf {p : Char → Bool} (other : p '\r' = false) (splits : origin.Splits place) :
    origin.Splits (skipIf p place) := by
  unfold skipIf
  split
  · exact splits_next_of_peek other splits.reaches ‹_›
  · exact splits

theorem splits_skipExponent (splits : origin.Splits place) : origin.Splits (skipExponent place) := by
  unfold skipExponent
  dsimp only
  split
  · rename_i letter
    have behind : origin.Splits place.next := splits_next_of_peek (by decide) splits.reaches letter
    split
    · exact splits_skipDigits 10 (splits_skipIf (by decide) behind)
    · exact splits
  · exact splits

/-- Where no other base is told, digits or a point come first. -/
theorem splits_skipNumber {c : Char} {cs : List Char} (here : place.rest = c :: cs)
    (number : (c.isDigit || (c == '.' && cs.head?.any Char.isDigit)) = true) : place.Splits (skipNumber place) := by
  have first : place.Splits place.next := by
    refine splits_next here ?_
    rintro rfl
    simp [Char.isDigit] at number
  have fraction : place.Splits (if (skipDigits 10 place).peek? == some '.' then
      skipDigits 10 (skipDigits 10 place).next else skipDigits 10 place) := by
    cases digit : c.isDigit with
    | true =>
        have whole : place.Splits (skipDigits 10 place) := by
          rw [skipDigits, skipWhile_of_head here (isDigitOf_ten digit)]
          exact splits_skipDigits 10 first
        split
        · rename_i point
          refine splits_skipDigits 10 (splits_next_of_peek (p := (· == '.')) (by decide) whole.reaches ?_)
          rw [beq_iff_eq.mp point]
          rfl
        · exact whole
    | false =>
        rw [digit, Bool.false_or, Bool.and_eq_true, beq_iff_eq] at number
        have whole : skipDigits 10 place = place := by
          obtain ⟨offset, rest⟩ := place
          obtain rfl : rest = c :: cs := here
          rw [number.1]
          rfl
        rw [whole, if_pos (by rw [Cursor.peek?, here, number.1]; rfl)]
        exact splits_skipDigits 10 first
  -- The letter of another base stands behind a zero.
  have prefixed {x : Char} {xs : List Char} (parts : place.rest = '0' :: x :: xs) (letter : x ≠ '\r') (base : Nat) :
      place.Splits (skipDigits base (place.skip 2)) := by
    refine splits_skipDigits base (splits_skip ['0', x] (List.cons_ne_nil _ _) ?_ ⟨xs, parts.symm⟩)
    simp [letter.symm]
  have digits {base : Nat} (marked : base ≠ 10 → place.Splits (skipDigits base (place.skip 2))) :
      place.Splits (if base == 10 then skipExponent (if (skipDigits 10 place).peek? == some '.' then
        skipDigits 10 (skipDigits 10 place).next else skipDigits 10 place) else skipDigits base (place.skip 2)) := by
    split
    · exact splits_skipExponent fraction
    · rename_i other
      exact marked (mt beq_iff_eq.mpr other)
  unfold skipNumber
  refine splits_skipIf (by decide) ?_
  split
  · rename_i x xs parts
    refine digits fun other => prefixed parts ?_ _
    rintro rfl
    exact other (by decide)
  · exact digits fun other => absurd rfl other

/-! ### Literals and punctuators -/

theorem splits_stringEnd {quote : Char} (other : quote ≠ '\r') (offset : Nat) (cs : List Char)
    (complete : (stringEnd quote offset cs).1 ≠ .invalid) : Splits ⟨offset, cs⟩ (stringEnd quote offset cs).2 := by
  fun_induction stringEnd quote offset cs with
  | case1 => exact absurd rfl complete
  | case2 => exact absurd rfl complete
  | case3 => exact absurd rfl complete
  | case4 offset cs ih => exact Reaches.trans_splits ⟨['\\', '\r', '\n'], rfl, rfl⟩ (ih complete)
  | case5 offset c cs _ ih =>
      exact ((reaches_cons offset '\\' _).trans (reaches_cons _ c cs)).trans_splits (ih complete)
  | case6 offset c cs _ _ _ _ closes => exact splits_cons offset cs (beq_iff_eq.mp closes ▸ other)
  | case7 offset c cs _ _ _ _ _ ih => exact (reaches_cons offset c cs).trans_splits (ih complete)

theorem splits_templateEnd (closed opened : TemplatePart) (offset : Nat) (cs : List Char)
    (complete : (templateEnd closed opened offset cs).1 ≠ .invalid) :
    Splits ⟨offset, cs⟩ (templateEnd closed opened offset cs).2 := by
  fun_induction templateEnd closed opened offset cs with
  | case1 => exact absurd rfl complete
  | case2 offset c cs ih =>
      exact ((reaches_cons offset '\\' _).trans (reaches_cons _ c cs)).trans_splits (ih complete)
  | case3 offset cs => exact Reaches.trans_splits ⟨['$'], rfl, rfl⟩ (splits_cons (x := '{') (offset + 1) cs (by decide))
  | case4 offset c cs _ _ closes =>
      refine splits_cons offset cs ?_
      rw [beq_iff_eq.mp closes]
      decide
  | case5 offset c cs _ _ _ ih => exact (reaches_cons offset c cs).trans_splits (ih complete)

theorem splits_regexEnd (inClass : Bool) (offset : Nat) (cs : List Char)
    (complete : (regexEnd inClass offset cs).1 ≠ .invalid) :
    Splits ⟨offset, cs⟩ (regexEnd inClass offset cs).2 := by
  fun_induction regexEnd inClass offset cs with
  | case1 => exact absurd rfl complete
  | case2 => exact absurd rfl complete
  | case3 => exact absurd rfl complete
  | case4 inClass offset c cs _ ih =>
      exact ((reaches_cons offset '\\' _).trans (reaches_cons _ c cs)).trans_splits (ih complete)
  | case5 => exact absurd rfl complete
  | case6 inClass offset c cs _ _ _ opens ih =>
      obtain rfl := beq_iff_eq.mp opens
      exact (reaches_cons offset '[' cs).trans_splits (ih complete)
  | case7 inClass offset c cs _ _ _ _ closes ih =>
      obtain rfl := beq_iff_eq.mp closes
      exact (reaches_cons offset ']' cs).trans_splits (ih complete)
  | case8 inClass offset c cs _ _ _ _ _ ends =>
      obtain rfl := beq_iff_eq.mp (Bool.and_eq_true_iff.mp ends).1
      exact splits_cons offset (x := '/') cs (by decide)
  | case9 inClass offset c cs _ _ _ _ _ _ ih => exact (reaches_cons offset c cs).trans_splits (ih complete)

theorem splits_pastPunctuator? {behind : Cursor} (found : pastPunctuator? place = some behind) :
    place.Splits behind := by
  obtain ⟨mark, here, rfl⟩ := Option.map_eq_some_iff.mp found
  have all : ∀ mark ∈ punctuators, mark ≠ [] ∧ '\r' ∉ mark := by decide
  obtain ⟨nonempty, other⟩ := all mark (List.mem_of_find?_eq_some here)
  have fits := List.find?_some here
  exact splits_skip mark nonempty other (List.isPrefixOf_iff_prefix.mp (Bool.and_eq_true_iff.mp fits).1)

end BindingRepair.Script
