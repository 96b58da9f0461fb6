/-
# What tokens cover

A token spells the characters between its two ends, at least one of them unless the text ends there. Unless
it is invalid it does not end within a line ending. The escapes of a name are decoded to the name, however it is
spelled; an identifier that is not marked as escaped holds no backslash, so decoding it gives its name as well.
-/

import BindingRepair.Proofs.Lexer.LineEnds
import BindingRepair.Proofs.Lexer.Words
import BindingRepair.Script.Grammar.State

namespace BindingRepair

namespace Text.Cursor

variable {a b c : Cursor}

/-- The later cursor stands some characters behind the earlier one, each of which satisfies `p`. -/
def Through (p : Char → Bool) (earlier later : Cursor) : Prop :=
  ∃ word, earlier.rest = word ++ later.rest ∧ later.offset = earlier.offset + byteLength word ∧
    ∀ c ∈ word, p c = true

variable {p q : Char → Bool}

theorem Through.refl (p : Char → Bool) (a : Cursor) : a.Through p a :=
  ⟨[], rfl, rfl, fun _ none => absurd none List.not_mem_nil⟩

theorem Through.trans (first : a.Through p b) (second : b.Through p c) : a.Through p c := by
  obtain ⟨word, rest, offset, are⟩ := first
  obtain ⟨word', rest', offset', are'⟩ := second
  refine ⟨word ++ word', ?_, ?_, ?_⟩
  · rw [rest, rest', List.append_assoc]
  · rw [offset', offset, byteLength_append, Nat.add_assoc]
  · exact List.forall_mem_append.mpr ⟨are, are'⟩

theorem Through.mono (through : a.Through p b) (all : ∀ c, p c = true → q c = true) : a.Through q b := by
  obtain ⟨word, rest, offset, are⟩ := through
  exact ⟨word, rest, offset, fun c here => all c (are c here)⟩

theorem through_next {x : Char} (here : a.peek? = some x) (is : p x = true) : a.Through p a.next := by
  obtain ⟨offset, rest⟩ := a
  cases rest with
  | nil => cases here
  | cons y ys =>
      obtain rfl := Option.some.inj here
      exact ⟨[y], rfl, rfl, List.forall_mem_singleton.mpr is⟩

theorem through_skipWhile (a : Cursor) (p : Char → Bool) : a.Through p (a.skipWhile p) := by
  rw [skipWhile_eq]
  exact ⟨a.rest.takeWhile p, List.takeWhile_append_dropWhile.symm, rfl, List.all_eq_true.mp List.all_takeWhile⟩

/-- What stands between two places. -/
theorem charsTo_of_append {word : List Char} (rest : a.rest = word ++ b.rest)
    (offset : b.offset = a.offset + byteLength word) : a.charsTo b = word := by
  rw [charsTo, offset, rest, Nat.add_sub_cancel_left, takeBytes_byteLength]

theorem Through.of_mem_charsTo (through : a.Through p b) : ∀ c ∈ a.charsTo b, p c = true := by
  obtain ⟨word, rest, offset, are⟩ := through
  rwa [charsTo_of_append rest offset]

theorem textTo_self (a : Cursor) : a.textTo a = "" := by
  rw [textTo, charsTo_of_append (List.nil_append _).symm rfl]

end Text.Cursor

namespace Script

open Text Cursor

/-- The token spells the characters that it covers, at least one unless it begins where the text ends,
where no identifier does. It parts no line ending unless it is invalid. There is no backslash in an identifier
without an escape, and no string begins with a brace. -/
structure Token.Covers (t : Token) : Prop where
  fills : t.first.Fills t.last
  splits : t.kind ≠ .invalid → t.first.Splits t.last
  text : t.text = t.first.textTo t.last
  named : t.kind = .identifier → t.first.rest ≠ []
  plain : t.kind = .identifier → t.escaped = false → t.first.Through (· != '\\') t.last
  quoted : t.kind = .string → t.first.rest.head? ≠ some '{'

namespace Token

variable {kind : TokenKind} {first last : Cursor} {newline escaped : Bool}

theorem covers_between_of_ne (fills : first.Fills last) (splits : kind ≠ .invalid → first.Splits last)
    (other : kind ≠ .identifier) (quoted : kind = .string → first.rest.head? ≠ some '{') :
    (between kind first last newline escaped).Covers :=
  ⟨fills, splits, rfl, fun identifier => absurd identifier other, fun identifier => absurd identifier other, quoted⟩

theorem covers_between_of_passes (passes : first.Passes last) (splits : kind ≠ .invalid → first.Splits last)
    (other : kind ≠ .identifier) (quoted : kind = .string → first.rest.head? ≠ some '{') :
    (between kind first last newline escaped).Covers :=
  covers_between_of_ne ⟨passes.reaches, fun _ => passes⟩ splits other quoted

theorem covers_invalid (passes : first.Passes last) : (between .invalid first last newline escaped).Covers :=
  covers_between_of_passes passes (fun valid => absurd rfl valid) TokenKind.noConfusion TokenKind.noConfusion

theorem covers_identifier (passes : first.Passes last) (splits : first.Splits last)
    (plain : escaped = false → first.Through (· != '\\') last) : (between .identifier first last newline escaped).Covers where
  fills := ⟨passes.reaches, fun _ => passes⟩
  splits _ := splits
  text := rfl
  named _ := passes.rest_ne_nil
  plain _ := plain
  quoted string := by cases string

theorem covers_atEnd {place : Cursor} (ends : place.rest = []) : (atEnd place newline).Covers where
  fills := ⟨.refl place, fun more => absurd ends more⟩
  splits _ := (Reaches.refl place).splits (by simp [ends])
  text := place.textTo_self.symm
  named identifier := by cases identifier
  plain identifier := by cases identifier
  quoted string := by cases string

end Token

/-! ### Kinds of tokens -/

theorem kind_stringEnd_mem (quote : Char) (offset : Nat) (cs : List Char) :
    (stringEnd quote offset cs).1 ∈ [TokenKind.string, .invalid] := by
  fun_induction stringEnd quote offset cs with
  | case4 _ _ ih => exact ih
  | case5 _ _ _ _ ih => exact ih
  | case7 _ _ _ _ _ _ _ _ ih => exact ih
  | _ => simp

theorem kind_templateEnd_mem (closed opened : TemplatePart) (offset : Nat) (cs : List Char) :
    (templateEnd closed opened offset cs).1 ∈ [TokenKind.template closed, .template opened, .invalid] := by
  fun_induction templateEnd closed opened offset cs with
  | case2 _ _ _ ih => exact ih
  | case5 _ _ _ _ _ _ ih => exact ih
  | _ => simp

theorem kind_regexEnd_ne (inClass : Bool) (offset : Nat) (cs : List Char) :
    (regexEnd inClass offset cs).1 ≠ .identifier ∧ (regexEnd inClass offset cs).1 ≠ .string := by
  fun_induction regexEnd inClass offset cs with
  | case4 _ _ _ _ _ ih => exact ih
  | case6 _ _ _ _ _ _ _ _ ih => exact ih
  | case7 _ _ _ _ _ _ _ _ _ ih => exact ih
  | case9 _ _ _ _ _ _ _ _ _ _ ih => exact ih
  | _ => exact ⟨TokenKind.noConfusion, TokenKind.noConfusion⟩

/-! ### Reading -/

/-- A character that is not marked as escaped is one that may stand there. -/
theorem through_pastIdentifierChar? {first : Bool} {place behind : Cursor}
    (found : pastIdentifierChar? first place = some (behind, false)) : place.Through (mayStand first) behind := by
  unfold pastIdentifierChar? at found
  split at found
  · cases found
  · rename_i x here
    split at found
    · obtain ⟨d, -, same⟩ := Option.map_eq_some_iff.mp found
      cases same
    · split at found
      · rename_i stands
        cases found
        exact through_next here stands
      · cases found

theorem isIdentifierPart_of_mayStand {first : Bool} (c : Char) (stands : mayStand first c = true) :
    isIdentifierPart c = true := by
  cases first with
  | true => exact isIdentifierPart_of_isIdentifierStart ((opensName_eq_isIdentifierStart c).symm.trans stands)
  | false => exact (continuesName_eq_isIdentifierPart c).symm.trans stands

/-- What is not marked as escaped holds no escape. -/
theorem through_skipIdentifier {first escaped : Bool} {place : Cursor}
    (unmarked : (skipIdentifier first escaped place).2 = false) :
    escaped = false ∧ place.Through isIdentifierPart (skipIdentifier first escaped place).1 := by
  fun_induction skipIdentifier first escaped place with
  | case1 => exact ⟨unmarked, .refl _ _⟩
  | case2 first escaped place d e found ih =>
      obtain ⟨both, rest⟩ := ih unmarked
      rw [Bool.or_eq_false_iff] at both
      obtain ⟨rfl, rfl⟩ := both
      exact ⟨rfl, ((through_pastIdentifierChar? found).mono isIdentifierPart_of_mayStand).trans rest⟩

theorem ne_backslash_of_part (c : Char) (part : isIdentifierPart c = true) : (c != '\\') = true :=
  bne_iff_ne.mpr (ne_backslash_of_isIdentifierPart part)

namespace Token

theorem first_readAt (newline : Bool) (place : Cursor) : (readAt newline place).first = place := by
  unfold readAt
  split
  · rfl
  · repeat' split
    all_goals rfl

theorem covers_readAt (newline : Bool) (place : Cursor) : (readAt newline place).Covers := by
  unfold readAt
  split
  · rename_i ends
    exact covers_atEnd ends
  · rename_i c cs here
    have opening := passes_next here
    have behind : place.next = ⟨place.next.offset, cs⟩ := by simp [Cursor.next, here]
    split
    · split
      · exact covers_invalid opening
      · rename_i d e found
        have passes : place.Passes d :=
          ⟨reaches_pastIdentifierChar? found, length_pastIdentifierChar?_lt found⟩
        refine covers_identifier (passes.trans_reaches (reaches_skipIdentifier false e d))
          (splits_skipIdentifier false e (splits_pastIdentifierChar? found)) ?_
        intro unmarked
        obtain ⟨rfl, rest⟩ := through_skipIdentifier unmarked
        have first := (through_pastIdentifierChar? found).mono isIdentifierPart_of_mayStand
        exact (first.trans rest).mono ne_backslash_of_part
    · split
      · rename_i number
        exact covers_between_of_passes (passes_skipNumber here number) (fun _ => splits_skipNumber here number)
          TokenKind.noConfusion TokenKind.noConfusion
      · split
        · rename_i quoted
          have other : c ≠ '\r' := by
            rintro rfl
            exact absurd quoted (by decide)
          have closing := reaches_stringEnd c place.next.offset cs
          have splits := splits_stringEnd other place.next.offset cs
          rw [← behind] at closing splits
          refine covers_between_of_passes (opening.trans_reaches closing)
            (fun valid => opening.reaches.trans_splits (splits valid))
            (ne_of_mem_of_not_mem (kind_stringEnd_mem c _ cs) (by decide)) fun _ => ?_
          rw [here, List.head?_cons, ne_eq, Option.some.injEq]
          rintro rfl
          exact absurd quoted (by decide)
        · split
          · have closing := reaches_templateEnd .full .head place.next.offset cs
            have splits := splits_templateEnd .full .head place.next.offset cs
            rw [← behind] at closing splits
            have kind := kind_templateEnd_mem .full .head place.next.offset cs
            exact covers_between_of_passes (opening.trans_reaches closing)
              (fun valid => opening.reaches.trans_splits (splits valid)) (ne_of_mem_of_not_mem kind (by decide))
              fun string => absurd string (ne_of_mem_of_not_mem kind (by decide))
          · split
            · rename_i hash
              have first : place.Splits place.next := by
                refine splits_next here ?_
                rintro rfl
                simp at hash
              exact covers_between_of_passes (opening.trans_reaches (reaches_skipIdentifier _ _ _))
                (fun _ => splits_skipIdentifier _ _ first) TokenKind.noConfusion TokenKind.noConfusion
            · split
              · rename_i found
                exact covers_between_of_passes (passes_pastPunctuator? found) (fun _ => splits_pastPunctuator? found)
                  TokenKind.noConfusion TokenKind.noConfusion
              · exact covers_invalid opening

theorem covers_read (place : Cursor) : (read place).Covers :=
  covers_readAt _ _

theorem reaches_read (place : Cursor) : place.Reaches (read place).first := by
  unfold read
  dsimp only
  rw [first_readAt]
  exact reaches_skipTrivia place

/-- The kinds of tokens that do not begin as names do. -/
theorem kind_readAt_mem (newline : Bool) {place : Cursor} {c : Char} {cs : List Char} (here : place.rest = c :: cs)
    (other : (opensName c || c == '\\') = false) : (readAt newline place).kind ∈
      [TokenKind.number, .string, .template .full, .template .head, .privateName, .punctuator, .invalid] := by
  have string := kind_stringEnd_mem c place.next.offset cs
  have template := kind_templateEnd_mem .full .head place.next.offset cs
  unfold readAt
  rw [here]
  dsimp only
  rw [if_neg (Bool.eq_false_iff.mp other)]
  split
  · exact .head _
  · split
    · exact (show [TokenKind.string, .invalid] ⊆ _ by decide) string
    · split
      · exact (show [TokenKind.template .full, .template .head, .invalid] ⊆ _ by decide) template
      · split
        · exact List.mem_of_elem_eq_true rfl
        · split
          · exact List.mem_of_elem_eq_true rfl
          · exact List.mem_of_elem_eq_true rfl

/-- A token that has not been read again is no piece of a template but the first. -/
theorem kind_read_ne (place : Cursor) : (read place).kind ≠ .template .middle ∧ (read place).kind ≠ .template .tail := by
  have kinds (newline : Bool) (first : Cursor) :
      (readAt newline first).kind ≠ .template .middle ∧ (readAt newline first).kind ≠ .template .tail := by
    cases here : first.rest with
    | nil => simp [readAt, here, atEnd]
    | cons c cs =>
        cases opens : opensName c || c == '\\' with
        | false =>
            have kind := kind_readAt_mem newline here opens
            exact ⟨ne_of_mem_of_not_mem kind (by decide), ne_of_mem_of_not_mem kind (by decide)⟩
        | true =>
            simp only [readAt, here, opens, if_true]
            split
            · exact ⟨TokenKind.noConfusion, TokenKind.noConfusion⟩
            · exact ⟨TokenKind.noConfusion, TokenKind.noConfusion⟩
  exact kinds _ _

theorem covers_readChild (place : Cursor) : (readChild place).Covers ∧ (readChild place).first = place := by
  obtain ⟨offset, rest⟩ := place
  cases rest with
  | nil => exact ⟨covers_atEnd rfl, rfl⟩
  | cons c cs =>
      unfold readChild
      dsimp only [Cursor.peek?, List.head?_cons]
      split
      · rename_i mark
        refine ⟨covers_between_of_passes (passes_next rfl) (fun _ => splits_next rfl ?_) TokenKind.noConfusion
          TokenKind.noConfusion, rfl⟩
        rintro rfl
        exact absurd mark (by decide)
      · rename_i mark
        have text : (c != '{' && c != '<') = true := by
          simp only [Bool.or_eq_true, beq_iff_eq, not_or] at mark
          simp [mark]
        refine ⟨covers_between_of_passes ?_ (fun _ => ?_) TokenKind.noConfusion TokenKind.noConfusion, rfl⟩
        · rw [skipWhile_of_head rfl text]
          exact (passes_next rfl).trans_reaches (reaches_skipWhile _ _)
        · -- Where the text ends a mark follows.
          refine (reaches_skipWhile _ _).splits fun feed => ?_
          obtain ⟨xs, rest⟩ := List.head?_eq_some_iff.mp feed
          exact absurd (not_of_skipWhile rest) (by decide)

end Token

/-! ### Reading again -/

/-- A token begins with the first of the characters that it covers. -/
theorem Token.Covers.rest_of_text {t : Token} (covers : t.Covers) {c : Char} (here : t.text.toList.head? = some c) :
    ∃ cs, t.first.rest = c :: cs := by
  obtain ⟨word, rest, offset⟩ := covers.fills.reaches
  rw [covers.text, Cursor.textTo, charsTo_of_append rest offset, String.toList_ofList] at here
  obtain ⟨cs, rfl⟩ := List.head?_eq_some_iff.mp here
  exact ⟨cs ++ t.last.rest, rest⟩

/-- Reading a token again leaves it where it begins. -/
class Rereads (again : Token → Token) : Prop where
  first : ∀ t, (again t).first = t.first
  covers : ∀ t, t.Covers → (again t).Covers

/-- What is read again behind its first character. -/
theorem Token.covers_behind {kind : TokenKind} {first last : Cursor} {newline : Bool}
    (body : first.next.Reaches last) (splits : kind ≠ .invalid → first.Splits last) (other : kind ≠ .identifier)
    (quoted : kind = .string → first.rest.head? ≠ some '{') : (between kind first last newline).Covers := by
  refine covers_between_of_ne ⟨first.reaches_next.trans body, fun more => ?_⟩ splits other quoted
  obtain ⟨c, cs, here⟩ := List.exists_cons_of_ne_nil more
  exact (passes_next here).trans_reaches body

instance : Rereads Token.asRegex where
  first t := by
    unfold Token.asRegex
    dsimp only
    split
    · rfl
    · rfl
  covers t _ := by
    have body := reaches_regexEnd false t.first.next.offset t.first.next.rest
    have splits := splits_regexEnd false t.first.next.offset t.first.next.rest
    have kind := kind_regexEnd_ne false t.first.next.offset t.first.next.rest
    unfold Token.asRegex
    dsimp only
    split
    · rename_i closing found
      rw [found] at body splits
      refine Token.covers_behind (body.trans (reaches_skipWhile _ _)) (fun _ => ?_) TokenKind.noConfusion
        TokenKind.noConfusion
      exact Splits.skipWhile (t.first.reaches_next.trans_splits (splits TokenKind.noConfusion)) (mayStand_return false)
    · rename_i closing _ found
      rw [found] at body splits kind
      exact Token.covers_behind body (fun valid => t.first.reaches_next.trans_splits (splits valid)) kind.1
        fun string => absurd string kind.2

instance : Rereads Token.asTemplateContinuation where
  first _ := rfl
  covers t _ := by
    have kind := kind_templateEnd_mem .tail .middle t.first.next.offset t.first.next.rest
    exact Token.covers_behind (reaches_templateEnd .tail .middle t.first.next.offset t.first.next.rest)
      (fun valid => t.first.reaches_next.trans_splits (splits_templateEnd .tail .middle _ t.first.next.rest valid))
      (ne_of_mem_of_not_mem kind (by decide)) fun string => absurd string (ne_of_mem_of_not_mem kind (by decide))

instance : Rereads Token.asElementName where
  first t := by
    unfold Token.asElementName
    split
    · rfl
    · rfl
  covers t covers := by
    unfold Token.asElementName
    split
    · rename_i identifier
      have kind := beq_iff_eq.mp identifier
      have passes := (covers.fills.passes (covers.named kind)).trans_reaches
        (reaches_skipWhile t.last fun c => c == '-' || continuesName c)
      have splits := (covers.splits (kind ▸ TokenKind.noConfusion)).skipWhile
        (p := fun c => c == '-' || continuesName c) (mayStand_return false)
      refine Token.covers_identifier passes splits fun unmarked => ?_
      refine (covers.plain kind unmarked).trans ((through_skipWhile _ _).mono fun c goesOn => ?_)
      rw [continuesName_eq_isIdentifierPart, Bool.or_eq_true, beq_iff_eq] at goesOn
      rcases goesOn with rfl | part
      · rfl
      · exact ne_backslash_of_part c part
    · exact covers

instance : Rereads Token.asAttributeString where
  first t := by
    unfold Token.asAttributeString
    split
    · rfl
    · split
      · rfl
      · rfl
  covers t covers := by
    unfold Token.asAttributeString
    split
    · exact covers
    · rename_i quote here
      split
      · rename_i quoted
        have body := reaches_skipWhile t.first.next (· != quote)
        refine Token.covers_behind (body.trans (reaches_next _)) (fun valid => ?_) ?_ fun _ brace => ?_
        · obtain ⟨x, xs, closes⟩ : ∃ x xs, (t.first.next.skipWhile (· != quote)).rest = x :: xs := by
            cases rest : (t.first.next.skipWhile (· != quote)).rest with
            | nil => simp [Cursor.peek?, rest] at valid
            | cons x xs => exact ⟨x, xs, rfl⟩
          obtain rfl : x = quote := by simpa using not_of_skipWhile closes
          refine (t.first.reaches_next.trans body).trans_splits (splits_next closes ?_)
          rintro rfl
          exact absurd quoted (by decide)
        · split
          · exact TokenKind.noConfusion
          · exact TokenKind.noConfusion
        · obtain rfl : '{' = quote := Option.some.inj (brace.symm.trans here)
          exact absurd quoted (by decide)
      · exact covers

instance : Rereads Token.asGreater where
  first t := by
    unfold Token.asGreater
    split
    · rfl
    · rfl
  covers t covers := by
    unfold Token.asGreater
    split
    · rename_i greater
      refine Token.covers_behind (.refl _) (fun _ => ?_) TokenKind.noConfusion TokenKind.noConfusion
      obtain ⟨xs, rest⟩ := covers.rest_of_text (beq_iff_eq.mp (Bool.and_eq_true_iff.mp greater).2)
      exact splits_next rest (by decide)
    · exact covers

/-- The first `>` of a token is a token of its own. -/
theorem Token.isPunctuator_asGreater {t : Token} (covers : t.Covers) (opens : t.opensWithGreater = true) :
    t.asGreater.isPunctuator ">" = true := by
  obtain ⟨cs, rest⟩ := covers.rest_of_text (beq_iff_eq.mp (Bool.and_eq_true_iff.mp opens).2)
  have text : t.first.textTo t.first.next = ">" := by
    generalize t.first = place at rest ⊢
    obtain ⟨offset, chars⟩ := place
    obtain rfl : chars = '>' :: cs := rest
    exact Cursor.textTo_append offset ['>'] cs
  rw [asGreater, if_pos opens, isPunctuator, between, text]
  rfl

theorem Token.kind_asTemplateContinuation (t : Token) : t.asTemplateContinuation.kind = .template .tail ∨
    t.asTemplateContinuation.kind = .template .middle ∨ t.asTemplateContinuation.kind = .invalid := by
  have kind : t.asTemplateContinuation.kind = (templateEnd .tail .middle t.first.next.offset t.first.next.rest).1 := rfl
  rw [kind]
  simpa using kind_templateEnd_mem .tail .middle t.first.next.offset t.first.next.rest

/-! ### Names -/

namespace Grammar

variable {c : Char} {cs word : List Char} {escaped : Bool}

theorem decodeEscapes_cons (noEscape : c ≠ '\\') (rest : List Char) :
    decodeEscapes none (c :: rest) = c :: decodeEscapes none rest := by
  rw [decodeEscapes]
  · exact fun _ is => absurd is noEscape
  · exact fun _ _ _ _ _ is => absurd is noEscape

/-- An escape of four digits is decoded to the character that they denote. -/
theorem decodeEscapes_short {w x y z : Char} (value : Denotes [w, x, y, z] c.toNat) (rest : List Char) :
    decodeEscapes none ('\\' :: 'u' :: w :: x :: y :: z :: rest) = c :: decodeEscapes none rest := by
  have noBrace : w ≠ '{' := by
    rintro rfl
    exact absurd (isHexDigit_of_denotes value '{' List.mem_cons_self) (by decide)
  rw [decodeEscapes, value.hexNumber?_eq (by simp), Option.bind_some, scalar?_toNat]
  exact fun is => absurd is noBrace

/-- The digits in braces are kept in reverse until the closing one. -/
theorem decodeEscapes_digits {digits : List Char} (are : ∀ d ∈ digits, isHexDigit d = true) (before rest : List Char) :
    decodeEscapes (some before) (digits ++ rest) = decodeEscapes (some (digits.reverse ++ before)) rest := by
  induction digits generalizing before with
  | nil => rfl
  | cons d ds ih =>
      have noBrace : d ≠ '}' := by
        rintro rfl
        exact absurd (are '}' List.mem_cons_self) (by decide)
      rw [List.cons_append, decodeEscapes, ih fun e here => are e (List.mem_cons_of_mem _ here), List.reverse_cons,
        List.append_assoc]
      · rfl
      · exact fun is => absurd is noBrace

/-- An escape in braces is decoded to the character that the digits denote. -/
theorem decodeEscapes_braced {digits : List Char} (value : Denotes digits c.toNat) (some' : digits ≠ [])
    (rest : List Char) :
    decodeEscapes none ('\\' :: 'u' :: '{' :: (digits ++ '}' :: rest)) = c :: decodeEscapes none rest := by
  rw [decodeEscapes, decodeEscapes_digits (isHexDigit_of_denotes value), decodeEscapes, List.append_nil,
    List.reverse_reverse, value.hexNumber?_eq some', Option.bind_some, scalar?_toNat]

end Grammar

/-- A character of a name is decoded, however it is spelled. -/
theorem SpellsChar.decode {c : Char} {word : List Char} {escaped : Bool} (spells : SpellsChar c word escaped)
    (noEscape : c ≠ '\\') (rest : List Char) :
    Grammar.decodeEscapes none (word ++ rest) = c :: Grammar.decodeEscapes none rest := by
  cases spells with
  | plain => exact Grammar.decodeEscapes_cons noEscape rest
  | short value => exact Grammar.decodeEscapes_short value rest
  | braced value some' =>
      rw [List.cons_append, List.cons_append, List.cons_append, List.append_assoc]
      exact Grammar.decodeEscapes_braced value some' rest

theorem Spells.decode {cs word : List Char} {escaped : Bool} (spells : Spells cs word escaped)
    (noEscape : '\\' ∉ cs) : Grammar.decodeEscapes none word = cs := by
  induction spells with
  | nil => rfl
  | cons here later ih =>
      obtain ⟨first, rest⟩ := not_or.mp (mt List.mem_cons.mpr noEscape)
      rw [here.decode (Ne.symm first), ih rest]

/-- The name of an identifier is what it covers, with the escapes decoded. -/
theorem Token.Covers.identifierName_eq {t : Token} (covers : t.Covers) (identifier : t.kind = .identifier) :
    Grammar.identifierName t =
      String.ofList (Grammar.decodeEscapes none (t.first.charsTo t.last)) := by
  have text : t.text.toList = t.first.charsTo t.last := by
    rw [covers.text, Cursor.textTo, String.toList_ofList]
  unfold Grammar.identifierName
  cases marked : t.escaped with
  | true => rw [if_pos rfl, text]
  | false =>
      have plain : '\\' ∉ t.first.charsTo t.last := fun here =>
        absurd ((covers.plain identifier marked).of_mem_charsTo _ here) (by decide)
      rw [if_neg Bool.false_ne_true, (Spells.refl _).decode plain, ← text,
        String.ofList_toList]

theorem Token.Covers.stop_of_isPunctuator {t : Token} (covers : t.Covers) {mark : String}
    (here : t.isPunctuator mark = true) : t.stop = t.start + byteLength mark.toList := by
  obtain ⟨word, rest, offset⟩ := covers.fills.reaches
  have text : t.text = mark := (beq_iff_eq.mp (Bool.and_eq_true_iff.mp here).2)
  rw [covers.text, Cursor.textTo, charsTo_of_append rest offset] at text
  rw [Token.stop, offset, ← text, String.toList_ofList]
  rfl

end Script

end BindingRepair
