/-
# Readers in front of a name

Each reader of a part of a token reads the same characters in front of one name as in front of another, if it ends
there: it looks for characters behind the part that no name begins with. A number may go on with the name that it
touches, so its readers have to end in front of another character.
-/

import BindingRepair.Proofs.Lexer.Spelling
import Mathlib.Data.List.Find

namespace BindingRepair

namespace Text

variable {behind behind' : List Char}

/-- Of two ways to part a text, the one with the shorter rest goes further. -/
theorem exists_append_of_length_le (front : List Char) {word rest : List Char} (parts : word ++ behind = front ++ rest)
    (inFront : behind.length ≤ rest.length) : ∃ more, word = front ++ more ∧ rest = more ++ behind := by
  rcases List.append_eq_append_iff.mp parts with ⟨more, rfl, rfl⟩ | further
  · rw [List.length_append] at inFront
    obtain rfl : more = [] := List.length_eq_zero_iff.mp (by omega)
    exact ⟨[], by simp⟩
  · exact further

namespace Cursor

/-- The places have one offset, and the same characters stand between them and the texts behind. -/
structure Alike (behind behind' : List Char) (a b : Cursor) : Prop where
  offset : b.offset = a.offset
  rest : ∃ word, a.rest = word ++ behind ∧ b.rest = word ++ behind'

theorem alike_append (behind behind' : List Char) (offset : Nat) (word : List Char) :
    Alike behind behind' ⟨offset, word ++ behind⟩ ⟨offset, word ++ behind'⟩ :=
  ⟨rfl, word, rfl, rfl⟩

namespace Alike

variable {a b c d : Cursor} (alike : Alike behind behind' a b)
include alike

/-- In front of the texts stands the same character. -/
theorem exists_cons (inFront : behind.length < a.rest.length) :
    ∃ x xs xs', a.rest = x :: xs ∧ b.rest = x :: xs' ∧ Alike behind behind' a.next b.next := by
  obtain ⟨offset, rest⟩ := a
  obtain ⟨offset', rest'⟩ := b
  obtain ⟨rfl, word, rfl, rfl⟩ := alike
  cases word with
  | nil => exact absurd inFront (Nat.lt_irrefl _)
  | cons x word => exact ⟨x, word ++ behind, word ++ behind', rfl, rfl, rfl, word, rfl, rfl⟩

/-- The places are in front of the texts, or the texts begin there. -/
theorem lt_or_eq : behind.length < a.rest.length ∨ a.rest = behind ∧ b.rest = behind' := by
  obtain ⟨-, word, rest, rest'⟩ := alike
  cases word with
  | nil => exact .inr ⟨rest, rest'⟩
  | cons x word =>
      refine .inl ?_
      rw [rest, List.length_append, List.length_cons]
      omega

theorem peek?_eq (inFront : behind.length < a.rest.length) : b.peek? = a.peek? := by
  obtain ⟨x, xs, xs', rest, rest', -⟩ := alike.exists_cons inFront
  rw [peek?, peek?, rest, rest']
  rfl

theorem next (inFront : behind.length < a.rest.length) : Alike behind behind' a.next b.next := by
  obtain ⟨-, -, -, -, -, next⟩ := alike.exists_cons inFront
  exact next

theorem skip (n : Nat) (inFront : n + behind.length ≤ a.rest.length) :
    Alike behind behind' (a.skip n) (b.skip n) := by
  induction n generalizing a b with
  | zero => exact alike
  | succ n ih =>
      have here : behind.length < a.rest.length := by omega
      obtain ⟨x, xs, -, rest, -, next⟩ := alike.exists_cons here
      refine ih next ?_
      rw [Cursor.next, rest]
      rw [rest, List.length_cons] at inFront
      dsimp only
      omega

/-- What is passed over before the texts begin is the same. -/
theorem skipWhile {p : Char → Bool} (inFront : behind.length < (a.skipWhile p).rest.length) :
    Alike behind behind' (a.skipWhile p) (b.skipWhile p) := by
  obtain ⟨_, rest⟩ := a
  obtain ⟨offset, rest'⟩ := b
  obtain ⟨rfl, word, rfl, rfl⟩ := alike
  dsimp only at inFront ⊢
  induction word generalizing offset with
  | nil => exact absurd inFront (Nat.not_lt_of_le (reaches_skipWhile ⟨offset, behind⟩ p).length_le)
  | cons x word ih =>
      rw [List.cons_append] at inFront ⊢
      cases inside : p x with
      | true =>
          have moves (xs : List Char) :
              Cursor.skipWhile p ⟨offset, x :: xs⟩ = Cursor.skipWhile p ⟨offset + x.utf8Size, xs⟩ :=
            skipWhile_of_head rfl inside
          rw [moves] at inFront ⊢
          rw [List.cons_append, moves]
          exact ih _ inFront
      | false =>
          have stops (xs : List Char) : Cursor.skipWhile p ⟨offset, x :: xs⟩ = ⟨offset, x :: xs⟩ := by
            simp [skipWhile_eq, inside, byteLength]
          rw [List.cons_append, stops, stops]
          exact alike_append behind behind' offset (x :: word)

/-- The text up to a later place is the same. -/
theorem textTo (later : Alike behind behind' c d) (reaches : a.Reaches c) : b.textTo d = a.textTo c := by
  obtain ⟨offset, rest⟩ := a
  obtain ⟨offset', rest'⟩ := b
  obtain ⟨stop, last⟩ := c
  obtain ⟨stop', last'⟩ := d
  obtain ⟨rfl, word, rfl, rfl⟩ := alike
  obtain ⟨rfl, more, rfl, rfl⟩ := later
  obtain ⟨between, parts, there⟩ := reaches
  dsimp only at parts there
  subst there
  rw [← List.append_assoc] at parts
  obtain rfl := List.append_cancel_right parts
  rw [List.append_assoc, List.append_assoc, textTo_append, textTo_append]

end Alike

end Cursor

end Text

namespace Script

open Text Cursor

/-- The text begins as names do. -/
def BeginsName (rest : List Char) : Prop :=
  ∃ c cs, rest = c :: cs ∧ isIdentifierStart c = true

variable {behind behind' : List Char} {a b c : Cursor}

theorem BeginsName.append (begins : BeginsName behind) (more : List Char) : BeginsName (behind ++ more) := by
  obtain ⟨c, cs, rfl, starts⟩ := begins
  exact ⟨c, cs ++ more, rfl, starts⟩

theorem isIdentifierStart_of_isDigit {c : Char} (digit : c.isDigit = true) : isIdentifierStart c = false := by
  refine Bool.eq_false_iff.mpr fun starts => ?_
  rw [isIdentifierStart, isAlphabetic_eq, isAscii_of_isDigit digit, Bool.not_true, Bool.false_and, Bool.or_false,
    Bool.or_eq_true, Bool.or_eq_true, beq_iff_eq, beq_iff_eq] at starts
  rcases starts with (rfl | rfl) | letter
  · exact absurd digit (by decide)
  · exact absurd digit (by decide)
  · have upTo : c.val ≤ '9'.val := of_decide_eq_true (Bool.and_eq_true_iff.mp digit).2
    have from' : 'A'.val ≤ c.val := by
      rcases (Bool.or_eq_true_iff.mp letter : c.isUpper = true ∨ c.isLower = true) with upper | lower
      · exact (of_decide_eq_true upper).1
      · exact UInt32.le_trans (by decide) (of_decide_eq_true (Bool.and_eq_true_iff.mp lower).1)
    exact absurd (UInt32.le_trans from' upTo) (by decide)

/-- What no name begins with is not where one begins. -/
theorem BeginsName.any_head (begins : BeginsName behind) {p : Char → Bool}
    (other : ∀ c, p c = true → isIdentifierStart c = false) : behind.head?.any p = false := by
  obtain ⟨c, cs, rfl, starts⟩ := begins
  refine Bool.eq_false_iff.mpr fun here => ?_
  rw [other c here] at starts
  cases starts

theorem BeginsName.any_opensName (begins : BeginsName behind) : behind.head?.any opensName = true := by
  obtain ⟨c, cs, rfl, starts⟩ := begins
  exact (opensName_eq_isIdentifierStart c).trans starts

/-- What no name begins with is there in front of both names or of none. -/
theorem any_peek?_of_alike (alike : Alike behind behind' a b) (begins : BeginsName behind)
    (begins' : BeginsName behind') {p : Char → Bool} (other : ∀ c, p c = true → isIdentifierStart c = false) :
    b.peek?.any p = a.peek?.any p := by
  obtain ⟨-, word, rest, rest'⟩ := alike
  rw [peek?, peek?, rest, rest']
  cases word with
  | nil => exact (begins'.any_head other).trans (begins.any_head other).symm
  | cons x word => rfl

/-- A digit stands in front of both names or of none. -/
theorem any_isDigit_append (begins : BeginsName behind) (begins' : BeginsName behind') (word : List Char) :
    (word ++ behind').head?.any Char.isDigit = (word ++ behind).head?.any Char.isDigit :=
  any_peek?_of_alike (alike_append behind behind' 0 word) begins begins' fun _ => isIdentifierStart_of_isDigit

/-- A name begins in front of both names, or both do. -/
theorem any_opensName_append (begins : BeginsName behind) (begins' : BeginsName behind') (word : List Char) :
    (word ++ behind').head?.any opensName = (word ++ behind).head?.any opensName := by
  cases word with
  | nil => exact begins'.any_opensName.trans begins.any_opensName.symm
  | cons x word => rfl

/-! ### Numbers -/

theorem alike_skipIf_of_lt (alike : Alike behind behind' a b) (p : Char → Bool)
    (inFront : behind.length < a.rest.length) : Alike behind behind' (skipIf p a) (skipIf p b) := by
  unfold skipIf
  rw [alike.peek?_eq inFront]
  split
  · exact alike.next inFront
  · exact alike

theorem alike_skipIf (alike : Alike behind behind' a b) (begins : BeginsName behind) (begins' : BeginsName behind')
    {p : Char → Bool} (other : ∀ c, p c = true → isIdentifierStart c = false) :
    Alike behind behind' (skipIf p a) (skipIf p b) := by
  rcases alike.lt_or_eq with inFront | ⟨rest, rest'⟩
  · exact alike_skipIf_of_lt alike p inFront
  · rw [skipIf, skipIf, peek?, peek?, rest, rest', begins.any_head other, begins'.any_head other]
    exact alike

theorem alike_skipExponent (alike : Alike behind behind' a b) (begins : BeginsName behind)
    (begins' : BeginsName behind') (inFront : behind.length < (skipExponent a).rest.length) :
    Alike behind behind' (skipExponent a) (skipExponent b) := by
  have here : behind.length < a.rest.length := Nat.lt_of_lt_of_le inFront (reaches_skipExponent a).length_le
  have noSign : ∀ c, (c == '+' || c == '-') = true → isIdentifierStart c = false := by
    intro c sign
    simp only [Bool.or_eq_true, beq_iff_eq] at sign
    rcases sign with rfl | rfl
    · decide
    · decide
  have digits := alike_skipIf (alike.next here) begins begins' noSign
  unfold skipExponent at inFront ⊢
  dsimp only at inFront ⊢
  rw [alike.peek?_eq here, any_peek?_of_alike digits begins begins' fun _ => isIdentifierStart_of_isDigit]
  split
  · rename_i letter
    rw [if_pos letter] at inFront
    split
    · rename_i digit
      rw [if_pos digit] at inFront
      exact digits.skipWhile inFront
    · exact alike
  · exact alike

/-- The base that a numeric literal is written in. -/
def numberBase : List Char → Nat
  | '0' :: x :: _ =>
    if x == 'x' || x == 'X' then 16
    else if x == 'o' || x == 'O' then 8
    else if x == 'b' || x == 'B' then 2
    else 10
  | _ => 10

/-- The place behind the digits of a literal without an exponent. -/
def fractionEnd (c : Cursor) : Cursor :=
  if (skipDigits 10 c).peek? == some '.' then skipDigits 10 (skipDigits 10 c).next else skipDigits 10 c

theorem skipNumber_eq (c : Cursor) : skipNumber c = skipIf (· == 'n')
    (if numberBase c.rest == 10 then skipExponent (fractionEnd c)
      else skipDigits (numberBase c.rest) (c.skip 2)) :=
  rfl

theorem numberBase_congr (x y : Char) (cs cs' : List Char) :
    numberBase (x :: y :: cs) = numberBase (x :: y :: cs') := by
  by_cases zero : x = '0'
  · rw [zero]
    rfl
  · simp [numberBase, zero]

theorem alike_fractionEnd (alike : Alike behind behind' a b)
    (inFront : behind.length < (fractionEnd a).rest.length) : Alike behind behind' (fractionEnd a) (fractionEnd b) := by
  have whole : behind.length < (skipDigits 10 a).rest.length := by
    unfold fractionEnd at inFront
    split at inFront
    · have reaches := ((skipDigits 10 a).reaches_next.trans (reaches_skipDigits 10 _)).length_le
      exact Nat.lt_of_lt_of_le inFront reaches
    · exact inFront
  have digits : Alike behind behind' (skipDigits 10 a) (skipDigits 10 b) := alike.skipWhile whole
  unfold fractionEnd at inFront ⊢
  rw [digits.peek?_eq whole]
  split
  · rename_i point
    rw [if_pos point] at inFront
    exact (digits.next whole).skipWhile inFront
  · exact digits

theorem alike_skipNumber (alike : Alike behind behind' a b) (begins : BeginsName behind) (begins' : BeginsName behind')
    {x : Char} {xs : List Char} (here : a.rest = x :: xs)
    (number : (x.isDigit || (x == '.' && xs.head?.any Char.isDigit)) = true)
    (inFront : behind.length < (skipNumber a).rest.length) :
    Alike behind behind' (skipNumber a) (skipNumber b) := by
  have two : 2 + behind.length ≤ a.rest.length := by
    have passes := (passes_skipNumber here number).length_lt
    omega
  have base : numberBase b.rest = numberBase a.rest := by
    obtain ⟨-, word, rest, rest'⟩ := alike
    rw [rest, List.length_append] at two
    rw [rest, rest']
    match word with
    | [] => exact absurd two (by simp)
    | [_] => exact absurd two (by simp)
    | x :: y :: more => exact numberBase_congr x y _ _
  rw [skipNumber_eq] at inFront
  have digits := Nat.lt_of_lt_of_le inFront (reaches_skipIf _ _).length_le
  rw [skipNumber_eq, skipNumber_eq, base]
  refine alike_skipIf_of_lt ?_ _ digits
  split
  · rename_i ten
    rw [if_pos ten] at digits
    have fraction := Nat.lt_of_lt_of_le digits (reaches_skipExponent _).length_le
    exact alike_skipExponent (alike_fractionEnd alike fraction) begins begins' digits
  · rename_i other
    rw [if_neg other] at digits
    exact (alike.skip 2 two).skipWhile digits

/-! ### Names -/

theorem alike_pastEscape? (alike : Alike behind behind' a b) (found : pastEscape? a = some c)
    (inFront : behind.length ≤ c.rest.length) : ∃ d, pastEscape? b = some d ∧ Alike behind behind' c d := by
  obtain ⟨_, rest⟩ := a
  obtain ⟨offset, rest'⟩ := b
  obtain ⟨rfl, word, rfl, rfl⟩ := alike
  dsimp only at found
  unfold pastEscape? at found
  split at found
  · rename_i digits parts
    dsimp only at parts found
    split at found
    · rename_i closes
      obtain rfl := Option.some.inj found
      -- A brace stands in front of the name.
      have brace := beq_iff_eq.mp (Bool.and_eq_true_iff.mp closes).2
      have closing : behind.length < (skipWhile isHexDigit ⟨offset + 3, digits⟩).rest.length :=
        Nat.lt_of_le_of_lt inFront (length_next_lt brace)
      have further := Nat.le_of_lt (Nat.lt_of_lt_of_le closing (reaches_skipWhile _ _).length_le)
      obtain ⟨more, rfl, rfl⟩ := exists_append_of_length_le ['\\', 'u', '{'] parts further
      have digits := (alike_append behind behind' (offset + 3) more).skipWhile closing
      refine ⟨_, ?_, digits.next closing⟩
      rw [← digits.offset, ← digits.peek?_eq closing] at closes
      unfold pastEscape?
      exact if_pos closes
    · cases found
  · rename_i w x y z rest _ parts
    dsimp only at parts found
    split at found
    · rename_i are
      obtain rfl := Option.some.inj found
      obtain ⟨more, rfl, rfl⟩ := exists_append_of_length_le ['\\', 'u', w, x, y, z] parts inFront
      exact ⟨_, pastEscape?_short (List.all_eq_true.mp are) offset _, alike_append ..⟩
    · cases found
  · cases found

theorem alike_pastIdentifierChar? (alike : Alike behind behind' a b) {first escaped : Bool}
    (found : pastIdentifierChar? first a = some (c, escaped)) (inFront : behind.length ≤ c.rest.length) :
    ∃ d, pastIdentifierChar? first b = some (d, escaped) ∧ Alike behind behind' c d := by
  have here := Nat.lt_of_le_of_lt inFront (length_pastIdentifierChar?_lt found)
  have same := alike.peek?_eq here
  unfold pastIdentifierChar? at found ⊢
  rw [same]
  split at found
  · cases found
  · split at found
    · obtain ⟨d, escape, parts⟩ := Option.map_eq_some_iff.mp found
      obtain ⟨rfl, rfl⟩ := Prod.mk.inj parts
      obtain ⟨d', escape', later⟩ := alike_pastEscape? alike escape inFront
      rename_i isEscape
      exact ⟨d', by rw [if_pos isEscape, escape']; rfl, later⟩
    · rename_i noEscape
      split at found
      · rename_i stands
        obtain ⟨rfl, rfl⟩ := Prod.mk.inj (Option.some.inj found)
        exact ⟨b.next, by rw [if_neg noEscape, if_pos stands], alike.next here⟩
      · cases found

/-- A name ends in front of another one only where something else stands between them. -/
theorem alike_skipIdentifier (alike : Alike behind behind' a b) (begins : BeginsName behind) (escaped : Bool)
    (inFront : behind.length ≤ (skipIdentifier false escaped a).1.rest.length)
    (plain : (skipIdentifier false escaped a).1.peek? ≠ some '\\') :
    (skipIdentifier false escaped b).2 = (skipIdentifier false escaped a).2 ∧
      Alike behind behind' (skipIdentifier false escaped a).1 (skipIdentifier false escaped b).1 := by
  generalize later : false = first at *
  fun_induction skipIdentifier first escaped a generalizing b with
  | case1 first escaped a stops =>
      subst later
      have here : behind.length < a.rest.length := by
        refine alike.lt_or_eq.resolve_right fun touches => ?_
        obtain ⟨c, cs, rfl, starts⟩ := begins
        have part := isIdentifierPart_of_isIdentifierStart starts
        have noEscape := ne_backslash_of_isIdentifierPart part
        simp [pastIdentifierChar?, peek?, touches.1, mayStand, part, noEscape] at stops
      have stops' : pastIdentifierChar? false b = none := by
        unfold pastIdentifierChar? at stops ⊢
        rw [alike.peek?_eq here]
        cases peek : a.peek? with
        | none => rfl
        | some x =>
            have other : x ≠ '\\' := fun same => plain (by rw [peek, same])
            simpa [peek, other] using stops
      rw [skipIdentifier_of_none stops']
      exact ⟨rfl, alike⟩
  | case2 first escaped a d e found ih =>
      have behindIt := Nat.le_trans inFront (reaches_skipIdentifier false (escaped || e) d).length_le
      obtain ⟨d', found', next⟩ := alike_pastIdentifierChar? alike found behindIt
      rw [skipIdentifier_of_some found']
      exact ih next rfl inFront plain

theorem pastIdentifierChar?_of_opensName (opens : a.peek?.any opensName = true) :
    pastIdentifierChar? true a = some (a.next, false) := by
  unfold pastIdentifierChar?
  cases here : a.peek? with
  | none => simp [here] at opens
  | some c =>
      have starts : isIdentifierStart c = true := by simpa [here] using opens
      have noEscape : c ≠ '\\' := by
        rintro rfl
        exact absurd starts (by decide)
      simp [mayStand, noEscape, starts]

/-- A name ends in front of another one where something else stands between them. -/
theorem alike_name (alike : Alike behind behind' a b) (begins : BeginsName behind) {first escaped : Bool}
    (found : pastIdentifierChar? first a = some (c, escaped))
    (inFront : behind.length ≤ (skipIdentifier false escaped c).1.rest.length)
    (plain : (skipIdentifier false escaped c).1.peek? ≠ some '\\') :
    ∃ d, pastIdentifierChar? first b = some (d, escaped) ∧
      (skipIdentifier false escaped d).2 = (skipIdentifier false escaped c).2 ∧
      Alike behind behind' (skipIdentifier false escaped c).1 (skipIdentifier false escaped d).1 := by
  have further := Nat.le_trans inFront (reaches_skipIdentifier false escaped c).length_le
  obtain ⟨d, found', next⟩ := alike_pastIdentifierChar? alike found further
  exact ⟨d, found', alike_skipIdentifier next begins escaped inFront plain⟩

theorem alike_privateName (alike : Alike behind behind' a b) (begins : BeginsName behind)
    (opens : a.peek?.any opensName = true) (inFront : behind.length ≤ (skipIdentifier true false a).1.rest.length)
    (plain : (skipIdentifier true false a).1.peek? ≠ some '\\') :
    Alike behind behind' (skipIdentifier true false a).1 (skipIdentifier true false b).1 := by
  have found := pastIdentifierChar?_of_opensName opens
  rw [skipIdentifier_of_some found] at inFront plain ⊢
  obtain ⟨d, found', -, last⟩ := alike_name alike begins found inFront plain
  rw [skipIdentifier_of_some found']
  exact last

/-! ### Quotes -/

theorem BeginsName.ne_cons (begins : BeginsName behind) {c : Char} (other : isIdentifierStart c = false)
    (cs : List Char) : behind ≠ c :: cs := by
  obtain ⟨d, ds, rfl, starts⟩ := begins
  intro same
  rw [(List.cons.inj same).1, other] at starts
  cases starts

/-- A character that no name begins with stands in front of the name. -/
theorem BeginsName.append_eq_cons (begins : BeginsName behind) {c : Char} (other : isIdentifierStart c = false)
    {word cs : List Char} (parts : word ++ behind = c :: cs) : ∃ more, word = c :: more := by
  cases word with
  | nil => exact absurd parts (begins.ne_cons other cs)
  | cons d more => exact ⟨more, by rw [(List.cons.inj parts).1]⟩

theorem BeginsName.exists_cons_of_append (begins : BeginsName behind) (word : List Char) :
    ∃ c cs, word ++ behind = c :: cs := by
  obtain ⟨c, cs, rfl, -⟩ := begins
  exact List.exists_cons_of_ne_nil (List.append_ne_nil_of_right_ne_nil word (List.cons_ne_nil c cs))

theorem alike_stringEnd (begins : BeginsName behind) (begins' : BeginsName behind') (quote : Char) (offset : Nat)
    {cs word : List Char} (parts : word ++ behind = cs)
    (inFront : behind.length ≤ (stringEnd quote offset cs).2.rest.length) :
    (stringEnd quote offset (word ++ behind')).1 = (stringEnd quote offset cs).1 ∧
      Alike behind behind' (stringEnd quote offset cs).2 (stringEnd quote offset (word ++ behind')).2 := by
  fun_induction stringEnd quote offset cs generalizing word with
  | case1 offset =>
      obtain ⟨c, cs, rfl, -⟩ := begins
      simp at parts
  | case2 offset cs =>
      obtain ⟨more, rfl⟩ := begins.append_eq_cons (by decide) parts
      rw [← parts]
      exact ⟨rfl, alike_append behind behind' offset ('\n' :: more)⟩
  | case3 offset cs =>
      obtain ⟨more, rfl⟩ := begins.append_eq_cons (by decide) parts
      rw [← parts]
      exact ⟨rfl, alike_append behind behind' offset ('\r' :: more)⟩
  | case4 offset cs ih =>
      have further := Nat.le_trans inFront (reaches_stringEnd quote (offset + 3) cs).length_le
      obtain ⟨more, rfl, rfl⟩ := exists_append_of_length_le ['\\', '\r', '\n'] parts further
      exact ih rfl inFront
  | case5 offset c cs other ih =>
      have further := Nat.le_trans inFront (reaches_stringEnd quote (offset + 1 + c.utf8Size) cs).length_le
      obtain ⟨more, rfl, rfl⟩ := exists_append_of_length_le ['\\', c] parts further
      have same : ['\\', c] ++ more ++ behind' = '\\' :: c :: (more ++ behind') := rfl
      rw [same, stringEnd]
      · exact ih rfl inFront
      · intro cs' isReturn feed
        obtain ⟨more, rfl⟩ := begins'.append_eq_cons (by decide) feed
        exact other _ isReturn rfl
  | case6 offset c cs noFeed noReturn _ noEscape closes =>
      obtain ⟨more, rfl, rfl⟩ := exists_append_of_length_le [c] parts inFront
      obtain ⟨d, ds, goesOn⟩ := begins.exists_cons_of_append more
      have plain : c ≠ '\\' := fun escape => noEscape d ds escape goesOn
      have same : [c] ++ more ++ behind' = c :: (more ++ behind') := rfl
      rw [same, stringEnd, if_pos closes]
      · exact ⟨rfl, alike_append ..⟩
      · exact noFeed
      · exact noReturn
      · exact fun _ escape => absurd escape plain
      · exact fun _ _ escape => absurd escape plain
  | case7 offset c cs noFeed noReturn _ noEscape goes ih =>
      have further := Nat.le_trans inFront (reaches_stringEnd quote (offset + c.utf8Size) cs).length_le
      obtain ⟨more, rfl, rfl⟩ := exists_append_of_length_le [c] parts further
      obtain ⟨d, ds, goesOn⟩ := begins.exists_cons_of_append more
      have plain : c ≠ '\\' := fun escape => noEscape d ds escape goesOn
      have same : [c] ++ more ++ behind' = c :: (more ++ behind') := rfl
      rw [same, stringEnd, if_neg goes]
      · exact ih rfl inFront
      · exact noFeed
      · exact noReturn
      · exact fun _ escape => absurd escape plain
      · exact fun _ _ escape => absurd escape plain

theorem alike_templateEnd (begins : BeginsName behind) (begins' : BeginsName behind') (closed opened : TemplatePart)
    (offset : Nat) {cs word : List Char} (parts : word ++ behind = cs)
    (inFront : behind.length ≤ (templateEnd closed opened offset cs).2.rest.length) :
    (templateEnd closed opened offset (word ++ behind')).1 = (templateEnd closed opened offset cs).1 ∧
      Alike behind behind' (templateEnd closed opened offset cs).2
        (templateEnd closed opened offset (word ++ behind')).2 := by
  fun_induction templateEnd closed opened offset cs generalizing word with
  | case1 offset =>
      obtain ⟨c, cs, rfl, -⟩ := begins
      simp at parts
  | case2 offset c cs ih =>
      have further := Nat.le_trans inFront (reaches_templateEnd closed opened (offset + 1 + c.utf8Size) cs).length_le
      obtain ⟨more, rfl, rfl⟩ := exists_append_of_length_le ['\\', c] parts further
      exact ih rfl inFront
  | case3 offset cs =>
      obtain ⟨more, rfl, rfl⟩ := exists_append_of_length_le ['$', '{'] parts inFront
      exact ⟨rfl, alike_append ..⟩
  | case4 offset c cs noEscape noMark closes =>
      obtain ⟨more, rfl, rfl⟩ := exists_append_of_length_le [c] parts inFront
      obtain ⟨d, ds, goesOn⟩ := begins.exists_cons_of_append more
      have same : [c] ++ more ++ behind' = c :: (more ++ behind') := rfl
      rw [same, templateEnd, if_pos closes]
      · exact ⟨rfl, alike_append ..⟩
      · exact fun _ _ escape _ => noEscape d ds escape goesOn
      · intro cs dollar brace
        obtain ⟨more, rfl⟩ := begins'.append_eq_cons (by decide) brace
        exact noMark _ dollar rfl
  | case5 offset c cs noEscape noMark goes ih =>
      have further := Nat.le_trans inFront (reaches_templateEnd closed opened (offset + c.utf8Size) cs).length_le
      obtain ⟨more, rfl, rfl⟩ := exists_append_of_length_le [c] parts further
      obtain ⟨d, ds, goesOn⟩ := begins.exists_cons_of_append more
      have same : [c] ++ more ++ behind' = c :: (more ++ behind') := rfl
      rw [same, templateEnd, if_neg goes]
      · exact ih rfl inFront
      · exact fun _ _ escape _ => noEscape d ds escape goesOn
      · intro cs dollar brace
        obtain ⟨more, rfl⟩ := begins'.append_eq_cons (by decide) brace
        exact noMark _ dollar rfl

/-! ### Punctuators -/

theorem isIdentifierStart_of_mem_punctuators {mark : List Char} (listed : mark ∈ punctuators) :
    ∀ c ∈ mark, isIdentifierStart c = false := by
  have none : ∀ mark ∈ punctuators, mark.all (fun c => !isIdentifierStart c) = true := by decide
  intro c here
  simpa using List.all_eq_true.mp (none mark listed) c here

/-- A mark in which no character of a name occurs stands in front of the name or not at all. -/
theorem isPrefixOf_append_eq (begins : BeginsName behind) {mark : List Char}
    (other : ∀ c ∈ mark, isIdentifierStart c = false) (word : List Char) :
    mark.isPrefixOf (word ++ behind) = mark.isPrefixOf word := by
  induction mark generalizing word with
  | nil => simp
  | cons c mark ih =>
      obtain ⟨noStart, others⟩ := List.forall_mem_cons.mp other
      cases word with
      | nil =>
          obtain ⟨d, ds, rfl, starts⟩ := begins
          have differ : c ≠ d := by
            rintro rfl
            rw [starts] at noStart
            cases noStart
          simp [List.isPrefixOf, differ]
      | cons d word => simp [List.isPrefixOf, ih others word]

theorem alike_pastPunctuator? (alike : Alike behind behind' a b) (begins : BeginsName behind)
    (begins' : BeginsName behind') (found : pastPunctuator? a = some c) :
    ∃ d, pastPunctuator? b = some d ∧ Alike behind behind' c d := by
  obtain ⟨word, rest, rest'⟩ := alike.rest
  have digit (more : List Char) : (more ++ behind')[0]?.any Char.isDigit = (more ++ behind)[0]?.any Char.isDigit := by
    rw [← List.head?_eq_getElem?, ← List.head?_eq_getElem?]
    exact any_isDigit_append begins begins' more
  have fits : ∀ mark ∈ punctuators,
      (mark.isPrefixOf b.rest && !(mark == ['?', '.'] && (b.peekAt? 2).any Char.isDigit)) =
        (mark.isPrefixOf a.rest && !(mark == ['?', '.'] && (a.peekAt? 2).any Char.isDigit)) := by
    intro mark listed
    have other := isIdentifierStart_of_mem_punctuators listed
    rw [rest, rest', isPrefixOf_append_eq begins other, isPrefixOf_append_eq begins' other, peekAt?, peekAt?, rest,
      rest']
    cases here : mark.isPrefixOf word with
    | false => rfl
    | true =>
        cases optional : mark == ['?', '.'] with
        | false => rfl
        | true =>
            obtain rfl := beq_iff_eq.mp optional
            obtain ⟨more, rfl⟩ := List.isPrefixOf_iff_prefix.mp here
            exact congrArg (fun follows => true && !(true && follows)) (digit more)
  obtain ⟨mark, first, rfl⟩ := Option.map_eq_some_iff.mp found
  have listed := List.mem_of_find?_eq_some first
  have fitting := List.find?_some first
  have here := (Bool.and_eq_true_iff.mp fitting).1
  rw [rest, isPrefixOf_append_eq begins (isIdentifierStart_of_mem_punctuators listed)] at here
  have short := (List.isPrefixOf_iff_prefix.mp here).length_le
  refine ⟨b.skip mark.length, ?_, alike.skip mark.length ?_⟩
  · rw [pastPunctuator?, List.find?_congr fits, first]
    rfl
  · rw [rest, List.length_append]
    omega

end Script

end BindingRepair
