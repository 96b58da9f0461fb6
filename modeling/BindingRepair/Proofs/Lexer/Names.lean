/-
# Ways to spell a name

Each character of a name stands for itself or is written as an escape: a backslash and the letter u, then four
hexadecimal digits, or any number of them in braces. However it is spelled, a name is read to its end, and whether
there is an escape in it is noticed.
-/

import BindingRepair.Proofs.Lexer.Reach
import BindingRepair.Text.Digits

namespace BindingRepair

namespace Text

/-! ### Hexadecimal digits -/

/-- Digits of a number in base sixteen, the most significant first. Letters are of either case, and zeros may stand in
front. -/
inductive Denotes : List Char → Nat → Prop
  | nil : Denotes [] 0
  | snoc {digits : List Char} {n v : Nat} {d : Char} (before : Denotes digits n) (small : v < 16)
    (last : d = hexDigit v ∨ d = (hexDigit v).toUpper) : Denotes (digits ++ [d]) (16 * n + v)

/-- The value of a digit is read off it, in either case. -/
theorem hexValue?_hexDigit : ∀ v < 16, hexValue? (hexDigit v) = some v ∧ hexValue? (hexDigit v).toUpper = some v := by
  decide

theorem hexValue?_of_eq {d : Char} {v : Nat} (small : v < 16) (last : d = hexDigit v ∨ d = (hexDigit v).toUpper) :
    hexValue? d = some v := by
  rcases last with rfl | rfl
  · exact (hexValue?_hexDigit v small).1
  · exact (hexValue?_hexDigit v small).2

namespace Denotes

variable {digits : List Char} {n : Nat}

theorem foldlM_eq (denotes : Denotes digits n) : digits.foldlM (fun n c => do
    let d ← hexValue? c
    if d < 16 then some (n * 16 + d) else none) 0 = some n := by
  induction denotes with
  | nil => rfl
  | snoc _ small last ih =>
      rw [List.foldlM_append, ih]
      simp [hexValue?_of_eq small last, small, Nat.mul_comm]

/-- The number that digits denote is the one that is read off them. -/
theorem hexNumber?_eq (denotes : Denotes digits n) (some' : digits ≠ []) : hexNumber? digits = some n := by
  rw [hexNumber?, numberInBase?, if_neg (by simpa using some')]
  exact denotes.foldlM_eq

end Denotes

theorem scalar?_toNat (c : Char) : scalar? c.toNat = some c := by
  have valid : c.toNat < 0xd800 ∨ 0xdfff < c.toNat ∧ c.toNat < 0x110000 := c.valid
  rw [scalar?, if_pos valid, Char.ofNat_toNat]

end Text

namespace Script

open Text Cursor

theorem isHexDigit_eq (c : Char) : isHexDigit c = (hexValue? c).isSome := by
  unfold isHexDigit hexValue?
  cases c.isDigit <;> cases (decide ('a' ≤ c) && decide (c ≤ 'f')) <;>
    cases (decide ('A' ≤ c) && decide (c ≤ 'F')) <;> rfl

theorem isHexDigit_of_denotes {digits : List Char} {n : Nat} (denotes : Denotes digits n) :
    ∀ d ∈ digits, isHexDigit d = true := by
  induction denotes with
  | nil => exact fun _ none => absurd none List.not_mem_nil
  | snoc _ small last ih =>
      intro d here
      rcases List.mem_append.mp here with before | here
      · exact ih d before
      · rw [List.mem_singleton.mp here, isHexDigit_eq, hexValue?_of_eq small last]
        rfl

theorem byteLength_of_isHexDigit {digits : List Char} (are : ∀ d ∈ digits, isHexDigit d = true) :
    byteLength digits = digits.length := by
  induction digits with
  | nil => rfl
  | cons d ds ih =>
      rw [byteLength, utf8Size_of_isHexDigit (are d List.mem_cons_self),
        ih fun e here => are e (List.mem_cons_of_mem _ here), List.length_cons, Nat.add_comm]

/-! ### Spellings -/

/-- The ways to write a character of a name, and whether they are escapes. -/
inductive SpellsChar (c : Char) : List Char → (escaped : Bool) → Prop
  | plain : SpellsChar c [c] false
  | short {w x y z : Char} (value : Denotes [w, x, y, z] c.toNat) : SpellsChar c ['\\', 'u', w, x, y, z] true
  | braced {digits : List Char} (value : Denotes digits c.toNat) (some' : digits ≠ []) :
    SpellsChar c ('\\' :: 'u' :: '{' :: (digits ++ ['}'])) true

/-- The ways to write a name, and whether an escape is used. -/
inductive Spells : List Char → List Char → (escaped : Bool) → Prop
  | nil : Spells [] [] false
  | cons {c : Char} {cs first rest : List Char} {escaped others : Bool} (here : SpellsChar c first escaped)
    (later : Spells cs rest others) : Spells (c :: cs) (first ++ rest) (escaped || others)

/-- Every name is written as it is. -/
theorem Spells.refl (cs : List Char) : Spells cs cs false := by
  induction cs with
  | nil => exact .nil
  | cons c cs ih => exact .cons .plain ih

/-- The text does not continue an identifier. -/
def endsIdentifier : List Char → Bool
  | [] => true
  | c :: _ => !isIdentifierPart c && c != '\\'

theorem ne_backslash_of_isIdentifierPart {c : Char} (part : isIdentifierPart c = true) : c ≠ '\\' := by
  rintro rfl
  revert part
  decide

/-! ### Reading -/

/-- An escape of four digits is read to its end. -/
theorem pastEscape?_short {w x y z : Char} (are : ∀ d ∈ [w, x, y, z], isHexDigit d = true) (offset : Nat)
    (rest : List Char) :
    pastEscape? ⟨offset, '\\' :: 'u' :: w :: x :: y :: z :: rest⟩ = some ⟨offset + 6, rest⟩ := by
  have noBrace : w ≠ '{' := by
    rintro rfl
    exact absurd (are '{' List.mem_cons_self) (by decide)
  unfold pastEscape?
  split
  · rename_i brace
    exact absurd (List.cons.inj (List.cons.inj (List.cons.inj brace).2).2).1 noBrace
  · rename_i here
    cases here
    rw [if_pos (List.all_eq_true.mpr are)]
  · rename_i other
    exact absurd rfl (other w x y z rest)

/-- Digits in braces are read to the closing one. -/
theorem skipWhile_digits {digits : List Char} (are : ∀ d ∈ digits, isHexDigit d = true) (offset : Nat)
    (rest : List Char) :
    skipWhile isHexDigit ⟨offset, digits ++ '}' :: rest⟩ = ⟨offset + byteLength digits, '}' :: rest⟩ := by
  have brace : ¬ isHexDigit '}' = true := by decide
  rw [skipWhile_eq, List.takeWhile_append_of_pos are, List.dropWhile_append_of_pos are,
    List.takeWhile_cons_of_neg brace, List.dropWhile_cons_of_neg brace, List.append_nil]

/-- An escape in braces is read to its end. -/
theorem pastEscape?_braced {digits : List Char} (are : ∀ d ∈ digits, isHexDigit d = true) (some' : digits ≠ [])
    (offset : Nat) (rest : List Char) :
    pastEscape? ⟨offset, '\\' :: 'u' :: '{' :: (digits ++ '}' :: rest)⟩ =
      some ⟨offset + 3 + byteLength digits + 1, rest⟩ := by
  have further : offset + 3 < offset + 3 + byteLength digits := by
    rw [byteLength_of_isHexDigit are]
    exact Nat.lt_add_of_pos_right (List.length_pos_iff.mpr some')
  have brace : '}'.utf8Size = 1 := rfl
  simp only [pastEscape?, skipWhile_digits are, peek?, next, List.head?_cons, further, decide_true,
    beq_self_eq_true, Bool.and_self, if_true, brace]

variable {c : Char} {word cs rest : List Char} {escaped : Bool}

/-- A character of a name is read to its end, however it is spelled. -/
theorem SpellsChar.past (spells : SpellsChar c word escaped) {first : Bool} (stands : mayStand first c = true)
    (noEscape : c ≠ '\\') (offset : Nat) (rest : List Char) :
    pastIdentifierChar? first ⟨offset, word ++ rest⟩ = some (⟨offset + byteLength word, rest⟩, escaped) := by
  cases spells with
  | plain => simp [pastIdentifierChar?, peek?, next, stands, noEscape, byteLength]
  | short value =>
      have are := isHexDigit_of_denotes value
      have past := pastEscape?_short are offset rest
      have size : offset + byteLength ('\\' :: 'u' :: _) = offset + 6 :=
        congrArg (fun n => offset + (1 + (1 + n))) (byteLength_of_isHexDigit are)
      simp only [pastIdentifierChar?, peek?, List.cons_append, List.nil_append, List.head?_cons, beq_self_eq_true,
        if_true, past, Option.map_some, size]
  | @braced digits value some' =>
      have past := pastEscape?_braced (isHexDigit_of_denotes value) some' offset rest
      have size : offset + byteLength ('\\' :: 'u' :: '{' :: (digits ++ ['}'])) =
          offset + 3 + byteLength digits + 1 := by
        have inner : byteLength (digits ++ ['}']) = byteLength digits + 1 := byteLength_append digits ['}']
        change offset + (1 + (1 + (1 + byteLength (digits ++ ['}'])))) = _
        omega
      simp only [pastIdentifierChar?, peek?, List.cons_append, List.append_assoc, List.nil_append, List.head?_cons,
        beq_self_eq_true, if_true, past, Option.map_some, size]

/-- A name begins with a character that names begin with, or with an escape. -/
theorem SpellsChar.begins (spells : SpellsChar c word escaped) (starts : isIdentifierStart c = true) :
    ∃ d ds, word = d :: ds ∧ (isIdentifierStart d = true ∨ d = '\\') := by
  cases spells with
  | plain => exact ⟨c, [], rfl, .inl starts⟩
  | short _ => exact ⟨'\\', _, rfl, .inr rfl⟩
  | braced _ _ => exact ⟨'\\', _, rfl, .inr rfl⟩

theorem Spells.begins {name : String} (spells : Spells name.toList word escaped)
    (identifier : isIdentifier name = true) :
    ∃ d ds, word = d :: ds ∧ (isIdentifierStart d = true ∨ d = '\\') := by
  obtain ⟨c, cs, chars, starts, -⟩ := isIdentifier_iff.mp identifier
  rw [chars] at spells
  cases spells with
  | cons here later =>
      obtain ⟨d, ds, rfl, begins⟩ := here.begins starts
      exact ⟨d, _, rfl, begins⟩

/-- No identifier goes on with the text. -/
def StopsName (rest : List Char) : Prop :=
  ∀ offset, pastIdentifierChar? false ⟨offset, rest⟩ = none

theorem stopsName_of_endsIdentifier (ends : endsIdentifier rest = true) : StopsName rest := by
  intro offset
  cases rest with
  | nil => rfl
  | cons c cs =>
      simp only [endsIdentifier, Bool.and_eq_true, Bool.not_eq_true', bne_iff_ne] at ends
      simp [pastIdentifierChar?, peek?, mayStand, ends.1, ends.2]

theorem skipIdentifier_of_none {first : Bool} {place : Cursor} (stops : pastIdentifierChar? first place = none) :
    skipIdentifier first escaped place = (place, escaped) := by
  rw [skipIdentifier]
  split
  · rfl
  · rename_i found
    rw [stops] at found
    cases found

theorem skipIdentifier_of_some {first here : Bool} {place behind : Cursor}
    (goesOn : pastIdentifierChar? first place = some (behind, here)) :
    skipIdentifier first escaped place = skipIdentifier false (escaped || here) behind := by
  rw [skipIdentifier]
  split
  · rename_i found
    rw [goesOn] at found
    cases found
  · rename_i found
    rw [goesOn] at found
    cases found
    rfl

/-- A name is read to its end, however it is spelled. -/
theorem Spells.skip (spells : Spells cs word escaped) (parts : ∀ c ∈ cs, isIdentifierPart c = true)
    (stops : StopsName rest) (before : Bool) (offset : Nat) :
    skipIdentifier false before ⟨offset, word ++ rest⟩ = (⟨offset + byteLength word, rest⟩, before || escaped) := by
  induction spells generalizing before offset with
  | nil => rw [List.nil_append, skipIdentifier_of_none (stops offset), Bool.or_false]; rfl
  | @cons c cs first later here others spelled _ ih =>
      have part := parts c List.mem_cons_self
      have stands : mayStand false c = true := (continuesName_eq_isIdentifierPart c).trans part
      have past := spelled.past stands (ne_backslash_of_isIdentifierPart part) offset (later ++ rest)
      rw [List.append_assoc, skipIdentifier_of_some past, ih fun d listed => parts d (List.mem_cons_of_mem _ listed),
        byteLength_append, Nat.add_assoc, Bool.or_assoc]

/-! ### Ends of names -/

/-- Whether an escape stands at a place does not depend on how far it is into the text. -/
theorem isSome_pastEscape? (first second : Nat) (cs : List Char) :
    (pastEscape? ⟨first, cs⟩).isSome = (pastEscape? ⟨second, cs⟩).isSome := by
  unfold pastEscape?
  dsimp only
  split
  · simp only [skipWhile_eq, Nat.lt_add_right_iff_pos, apply_ite Option.isSome]
    rfl
  · simp only [apply_ite Option.isSome, Option.isSome_some, Option.isSome_none]
  · rfl

/-- What an identifier does not go on with at one place it does not go on with anywhere. -/
theorem stopsName_of_eq_none {offset : Nat} {rest : List Char}
    (stops : pastIdentifierChar? false ⟨offset, rest⟩ = none) : StopsName rest := by
  intro other
  cases rest with
  | nil => rfl
  | cons c cs =>
      have same := isSome_pastEscape? offset other (c :: cs)
      by_cases escape : c = '\\'
      · subst escape
        simp only [pastIdentifierChar?, peek?, List.head?_cons, beq_self_eq_true, if_true, Option.map_eq_none_iff]
          at stops ⊢
        rw [stops] at same
        exact Option.not_isSome_iff_eq_none.mp (by simp [← same])
      · simp [pastIdentifierChar?, peek?, escape] at stops ⊢
        exact stops

/-- Behind the characters of an identifier no identifier goes on. -/
theorem stopsName_skipIdentifier (escaped : Bool) (place : Cursor) :
    StopsName (skipIdentifier false escaped place).1.rest := by
  generalize later : false = first
  fun_induction skipIdentifier first escaped place with
  | case1 first escaped place stops => exact stopsName_of_eq_none (later ▸ stops)
  | case2 first escaped place d e found ih => exact ih rfl

end Script

end BindingRepair
