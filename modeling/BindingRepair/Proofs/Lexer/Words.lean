/-
# Reading written words

What the reader of tokens makes of text that was put together from words: a name, a punctuator or a
string, followed by something that does not continue it, is read as that word, and the place behind it
is the place before what follows.
-/

import BindingRepair.Proofs.Lexer.Names
import Mathlib.Data.List.Basic

namespace BindingRepair

/-! ### Bytes -/

namespace Text

theorem takeBytes_byteLength (first second : List Char) :
    takeBytes (byteLength first) (first ++ second) = first := by
  induction first with
  | nil => cases second <;> rfl
  | cons c cs ih =>
      rw [List.cons_append, takeBytes, if_neg (byteLength_cons_ne_zero c cs), byteLength,
        Nat.add_sub_cancel_left, ih]

theorem dropBytes_byteLength (first second : List Char) :
    dropBytes (byteLength first) (first ++ second) = second := by
  induction first with
  | nil => cases second <;> rfl
  | cons c cs ih =>
      rw [List.cons_append, dropBytes, if_neg (byteLength_cons_ne_zero c cs), byteLength,
        Nat.add_sub_cancel_left, ih]

/-- What stands between the first characters of a text and the rest. -/
theorem slice_append (first word rest : List Char) :
    slice (first ++ word ++ rest) (byteLength first) (byteLength first + byteLength word) = word := by
  rw [slice, Nat.add_sub_cancel_left, List.append_assoc, dropBytes_byteLength, takeBytes_byteLength]

/-- The text between two places is what stands between them. -/
theorem Cursor.textTo_append (offset : Nat) (word rest : List Char) :
    Cursor.textTo ⟨offset, word ++ rest⟩ ⟨offset + byteLength word, rest⟩ = String.ofList word := by
  rw [Cursor.textTo, Cursor.charsTo, Nat.add_sub_cancel_left, takeBytes_byteLength]

end Text

namespace Script

open Text

/-- The token of a word that is written at a place. -/
def Token.written (kind : TokenKind) (newline : Bool) (offset : Nat) (word rest : List Char) : Token where
  kind := kind
  first := ⟨offset, word ++ rest⟩
  last := ⟨offset + byteLength word, rest⟩
  text := String.ofList word
  newlineBefore := newline
  escaped := false

theorem Token.between_append (kind : TokenKind) (newline : Bool) (offset : Nat)
    (word rest : List Char) :
    Token.between kind ⟨offset, word ++ rest⟩ ⟨offset + byteLength word, rest⟩ newline =
      Token.written kind newline offset word rest := by
  rw [Token.between, Cursor.textTo_append]
  rfl

/-- The token that comes some tokens behind a token. -/
def Token.behind (t : Token) : Nat → Token
  | 0 => t
  | k + 1 => (t.behind k).following

/-! ### Names -/

/-- An identifier is read as one token, however it is spelled. -/
theorem readAt_spelled {name : String} (identifier : isIdentifier name = true) {word : List Char} {escaped : Bool}
    (spells : Spells name.toList word escaped) {rest : List Char} (stops : StopsName rest) (newline : Bool)
    (offset : Nat) :
    Token.readAt newline ⟨offset, word ++ rest⟩ =
      { Token.written .identifier newline offset word rest with escaped } := by
  obtain ⟨c, cs, chars, starts, parts⟩ := isIdentifier_iff.mp identifier
  rw [chars] at spells
  cases spells with
  | @cons c cs first others here later spelled spells =>
      have stands : mayStand true c = true := (opensName_eq_isIdentifierStart c).trans starts
      have noEscape := ne_backslash_of_isIdentifierPart (isIdentifierPart_of_isIdentifierStart starts)
      have begins := spelled.past stands noEscape offset (others ++ rest)
      have goesOn := spells.skip parts stops here (offset + byteLength first)
      obtain ⟨d, ds, rfl, head⟩ := spelled.begins starts
      have opens : (opensName d || d == '\\') = true := by simpa using head
      have last : offset + byteLength (d :: ds) + byteLength others = offset + byteLength (d :: ds ++ others) := by
        rw [byteLength_append, Nat.add_assoc]
      rw [List.append_assoc]
      simp only [List.cons_append] at begins goesOn last ⊢
      simp only [Token.readAt, opens, if_true, begins, goesOn, last]
      have text := Cursor.textTo_append offset (d :: (ds ++ others)) rest
      rw [List.cons_append, List.append_assoc] at text
      rw [Token.between, text, Token.written, List.cons_append, List.append_assoc]

/-! ### Gaps -/

/-- Neither a gap nor a comment begins with the character. -/
def opensToken (c : Char) : Bool :=
  c != '/' && !isLineTerminator c && !Unicode.isBlank c && c != '\ufeff'

theorem triviaEnd_of_opensToken {c : Char} (opens : opensToken c = true) (newline : Bool)
    (offset : Nat) (cs : List Char) :
    triviaEnd .blanks newline offset (c :: cs) = (newline, ⟨offset, c :: cs⟩) := by
  simp only [opensToken, Bool.and_eq_true, bne_iff_ne, Bool.not_eq_true'] at opens
  obtain ⟨⟨⟨noSlash, noBreak⟩, noBlank⟩, noMark⟩ := opens
  rw [triviaEnd_blanks_cons (fun _ slash => absurd slash noSlash) fun _ slash => absurd slash noSlash]
  simp [noBreak, noBlank, noMark]

/-- A gap of blank characters is skipped; what counts is whether it breaks the line. -/
theorem triviaEnd_append {gap : List Char} (blank : ∀ c ∈ gap, Unicode.isBlank c = true)
    (newline : Bool) (offset : Nat) (rest : List Char) :
    triviaEnd .blanks newline offset (gap ++ rest) =
      triviaEnd .blanks (newline || gap.any isLineTerminator) (offset + byteLength gap) rest := by
  induction gap generalizing newline offset with
  | nil => simp [byteLength]
  | cons c cs ih =>
      have blankHere : Unicode.isBlank c = true := blank c List.mem_cons_self
      have noSlash : c ≠ '/' := by
        rintro rfl
        revert blankHere
        decide
      have later := ih fun d here => blank d (List.mem_cons_of_mem _ here)
      have skipped : triviaEnd .blanks newline offset (c :: (cs ++ rest)) =
          triviaEnd .blanks (newline || isLineTerminator c) (offset + c.utf8Size) (cs ++ rest) := by
        rw [triviaEnd_blanks_cons (fun _ slash => absurd slash noSlash) fun _ slash => absurd slash noSlash]
        cases terminates : isLineTerminator c with
        | true => simp
        | false => simp [blankHere]
      rw [List.cons_append, skipped, later, List.any_cons, Bool.or_assoc, byteLength, Nat.add_assoc]

/-- Whether a line ends before a token is told by its flag alone. -/
theorem Token.readAt_newline (newline : Bool) (place : Cursor) :
    Token.readAt newline place = { Token.readAt false place with newlineBefore := newline } := by
  unfold Token.readAt
  cases place.rest with
  | nil => rfl
  | cons c cs =>
      dsimp only
      repeat' split
      all_goals rfl

/-- Behind a gap the token is read that begins there. -/
theorem Token.read_append {gap : List Char} (blank : ∀ c ∈ gap, Unicode.isBlank c = true)
    {c : Char} (opens : opensToken c = true) (noHash : c ≠ '#') (offset : Nat) (cs : List Char) :
    Token.read ⟨offset, gap ++ c :: cs⟩ =
      Token.readAt (gap.any isLineTerminator) ⟨offset + byteLength gap, c :: cs⟩ := by
  have noMark : Cursor.startsWith ⟨offset, gap ++ c :: cs⟩ "#!" = false := by
    cases gap with
    | nil => simp [Cursor.startsWith, List.isPrefixOf, Ne.symm noHash]
    | cons d ds =>
        have blankHere := blank d List.mem_cons_self
        have noHash : '#' ≠ d := by
          rintro rfl
          revert blankHere
          decide
        simp [Cursor.startsWith, List.isPrefixOf, noHash]
  rw [Token.read, skipTrivia, noMark, Bool.and_false, if_neg Bool.false_ne_true,
    triviaEnd_append blank, triviaEnd_of_opensToken opens, Bool.false_or]

/-- A character of an identifier may begin a token behind a gap. -/
theorem opensToken_of_isIdentifierPart {c : Char} (part : isIdentifierPart c = true) :
    opensToken c = true := by
  have noGap := isIn_gapIntervals_of_isIdentifierPart part
  have noSlash : c ≠ '/' := by
    rintro rfl
    revert part
    decide
  have noMark : c ≠ '\ufeff' := by
    rintro rfl
    revert noGap
    decide
  have noBlank : Unicode.isBlank c = false := by
    refine Bool.eq_false_iff.mpr fun blank => ?_
    rw [Unicode.isIn_gapIntervals_of_isBlank blank] at noGap
    cases noGap
  have noBreak : isLineTerminator c = false := by
    refine Bool.eq_false_iff.mpr fun terminates => ?_
    rw [Unicode.isIn_gapIntervals_of_isLineTerminator terminates] at noGap
    cases noGap
  simp [opensToken, noSlash, noBreak, noBlank, noMark]

theorem opensToken_of_isIdentifierStart {c : Char} (starts : isIdentifierStart c = true) :
    opensToken c = true :=
  opensToken_of_isIdentifierPart (isIdentifierPart_of_isIdentifierStart starts)

/-- A blank ends the identifier before it. -/
theorem endsIdentifier_of_isBlank {c : Char} (blank : Unicode.isBlank c = true) (rest : List Char) :
    endsIdentifier (c :: rest) = true := by
  have noPart : isIdentifierPart c = false := by
    refine Bool.eq_false_iff.mpr fun part => ?_
    have noGap := isIn_gapIntervals_of_isIdentifierPart part
    rw [Unicode.isIn_gapIntervals_of_isBlank blank] at noGap
    cases noGap
  have noEscape : c ≠ '\\' := by
    rintro rfl
    revert blank
    decide
  simp [endsIdentifier, noPart, noEscape]

/-! ### Marks and strings -/

/-- The punctuators that no longer one begins with. -/
def singleMarks : List Char :=
  ['{', '}', '(', ')', '[', ']', ';', ',', ':']

theorem readAt_mark {c : Char} (single : c ∈ singleMarks) (newline : Bool) (offset : Nat)
    (rest : List Char) :
    Token.readAt newline ⟨offset, c :: rest⟩ = Token.written .punctuator newline offset [c] rest := by
  have behind := Token.between_append .punctuator newline offset [c] rest
  simp only [singleMarks, List.mem_cons, List.not_mem_nil, or_false] at single
  rcases single with rfl | rfl | rfl | rfl | rfl | rfl | rfl | rfl | rfl
  all_goals exact behind

theorem opensToken_of_mem_singleMarks {c : Char} (single : c ∈ singleMarks) :
    opensToken c = true ∧ c ≠ '#' := by
  simp only [singleMarks, List.mem_cons, List.not_mem_nil, or_false] at single
  rcases single with rfl | rfl | rfl | rfl | rfl | rfl | rfl | rfl | rfl
  all_goals exact ⟨rfl, by decide⟩

/-- The characters of a string without escapes are read up to the closing quote. -/
theorem stringEnd_append {quote : Char} {value : List Char}
    (plain : ∀ c ∈ value, c ≠ quote ∧ c ≠ '\\' ∧ c ≠ '\n' ∧ c ≠ '\r')
    (isQuote : quote = '\'' ∨ quote = '"') (offset : Nat) (rest : List Char) :
    stringEnd quote offset (value ++ quote :: rest) =
      (.string, ⟨offset + byteLength (value ++ [quote]), rest⟩) := by
  induction value generalizing offset with
  | nil =>
      have stops : stringEnd quote offset (quote :: rest) = (.string, ⟨offset + quote.utf8Size, rest⟩) := by
        rcases isQuote with rfl | rfl
        all_goals rfl
      simpa [byteLength] using stops
  | cons c cs ih =>
      obtain ⟨noQuote, noEscape, noFeed, noReturn⟩ := plain c List.mem_cons_self
      have later := ih (fun d here => plain d (List.mem_cons_of_mem _ here)) (offset + c.utf8Size)
      rw [List.cons_append, stringEnd]
      · rw [if_neg (by simpa using noQuote), later, List.cons_append, byteLength, Nat.add_assoc]
      · exact fun feed => absurd feed noFeed
      · exact fun carriage => absurd carriage noReturn
      · exact fun _ escape => absurd escape noEscape
      · exact fun _ _ escape => absurd escape noEscape

/-! ### What follows a name -/

theorem ascii_of_mem_punctuators : ∀ mark ∈ punctuators, mark.head?.all (·.toNat < 128) = true ∧ mark ≠ [] := by
  decide

/-- No punctuator begins with a character of an identifier that does not begin one. -/
theorem pastPunctuator?_of_isIdentifierPart {c : Char} (part : isIdentifierPart c = true)
    (noStart : isIdentifierStart c = false) (noDigit : c.isDigit = false) (offset : Nat) (cs : List Char) :
    pastPunctuator? ⟨offset, c :: cs⟩ = none := by
  have wide : 128 ≤ c.toNat := by
    simp only [isIdentifierStart, Bool.or_eq_false_iff, beq_eq_false_iff_ne] at noStart
    obtain ⟨⟨noScore, noDollar⟩, noLetter⟩ := noStart
    simp only [isIdentifierPart, Unicode.isAlphanumeric, noLetter, Bool.or_eq_true, beq_iff_eq, noScore,
      noDollar, false_or, Bool.false_or] at part
    rcases part with (rfl | rfl) | numeric
    · decide
    · decide
    · unfold Unicode.isNumeric at numeric
      split at numeric
      · rw [noDigit] at numeric
        cases numeric
      · rename_i beyond
        exact Nat.le_of_not_lt fun below => beyond (UInt32.lt_iff_toNat_lt.mpr below)
  unfold pastPunctuator?
  refine Option.map_eq_none_iff.mpr (List.find?_eq_none.mpr fun mark listed fits => ?_)
  obtain ⟨narrow, nonempty⟩ := ascii_of_mem_punctuators mark listed
  cases mark with
  | nil => exact nonempty rfl
  | cons d ds =>
      simp only [List.isPrefixOf_cons_cons, Bool.and_eq_true, beq_iff_eq] at fits
      simp only [List.head?_cons, Option.all_some, decide_eq_true_eq, fits.1.1] at narrow
      omega

/-- A token that begins with a character of an identifier is no punctuator, nor the end of the text. -/
theorem kind_readAt_of_isIdentifierPart {c : Char} (part : isIdentifierPart c = true ∨ c = '\\')
    (newline : Bool) (offset : Nat) (cs : List Char) :
    (Token.readAt newline ⟨offset, c :: cs⟩).kind ∈ [TokenKind.identifier, .number, .invalid] := by
  have no (other : Char) (noPart : isIdentifierPart other = false) (plain : other ≠ '\\') : c ≠ other := by
    rintro rfl
    rcases part with part | rfl
    · rw [noPart] at part
      cases part
    · exact plain rfl
  cases start : isIdentifierStart c || c == '\\' with
  | true =>
      simp only [Token.readAt, opensName_eq_isIdentifierStart, start, if_true]
      split
      · exact List.mem_of_getLast? rfl
      · exact List.mem_cons_self
  | false =>
      obtain ⟨noStart, noEscape⟩ := Bool.or_eq_false_iff.mp start
      have part := part.resolve_right (beq_eq_false_iff_ne.mp noEscape)
      cases digit : c.isDigit with
      | true =>
          simp [Token.readAt, start, digit, Token.between]
      | false =>
          have none := pastPunctuator?_of_isIdentifierPart part noStart digit offset cs
          simp [Token.readAt, start, digit, no '.' (by decide) (by decide), no '\'' (by decide) (by decide),
            no '"' (by decide) (by decide), no templateQuote (by decide) (by decide),
            no '#' (by decide) (by decide), none, Token.between]

/-! ### Words behind gaps -/

section Read

variable {gap : List Char} (blank : ∀ c ∈ gap, Unicode.isBlank c = true) (offset : Nat)
include blank

/-- Behind a gap an identifier is read as one token, however it is spelled. -/
theorem Token.read_spelled_of_stopsName {name : String} (identifier : isIdentifier name = true) {word : List Char}
    {escaped : Bool} (spells : Spells name.toList word escaped) {rest : List Char} (stops : StopsName rest) :
    Token.read ⟨offset, gap ++ (word ++ rest)⟩ =
      { Token.written .identifier (gap.any isLineTerminator) (offset + byteLength gap) word rest with escaped } := by
  have token := readAt_spelled identifier spells stops (gap.any isLineTerminator) (offset + byteLength gap)
  obtain ⟨c, cs, rfl, begins⟩ := spells.begins identifier
  have opens : opensToken c = true ∧ c ≠ '#' := by
    rcases begins with starts | rfl
    · refine ⟨opensToken_of_isIdentifierStart starts, ?_⟩
      rintro rfl
      exact absurd starts (by decide)
    · decide
  rw [List.cons_append, Token.read_append blank opens.1 opens.2]
  exact token

theorem Token.read_spelled {name : String} (identifier : isIdentifier name = true) {word : List Char} {escaped : Bool}
    (spells : Spells name.toList word escaped) {rest : List Char} (ends : endsIdentifier rest = true) :
    Token.read ⟨offset, gap ++ (word ++ rest)⟩ =
      { Token.written .identifier (gap.any isLineTerminator) (offset + byteLength gap) word rest with escaped } :=
  Token.read_spelled_of_stopsName blank offset identifier spells (stopsName_of_endsIdentifier ends)

theorem Token.read_identifier {name : String} (identifier : isIdentifier name = true)
    {rest : List Char} (ends : endsIdentifier rest = true) :
    Token.read ⟨offset, gap ++ (name.toList ++ rest)⟩ =
      Token.written .identifier (gap.any isLineTerminator) (offset + byteLength gap) name.toList rest :=
  Token.read_spelled blank offset identifier (.refl _) ends

theorem Token.read_mark {c : Char} (single : c ∈ singleMarks) (rest : List Char) :
    Token.read ⟨offset, gap ++ c :: rest⟩ =
      Token.written .punctuator (gap.any isLineTerminator) (offset + byteLength gap) [c] rest := by
  obtain ⟨opens, noHash⟩ := opensToken_of_mem_singleMarks single
  rw [Token.read_append blank opens noHash, readAt_mark single]

/-- The sign of an assignment with a blank behind it. -/
theorem Token.read_equals (rest : List Char) :
    Token.read ⟨offset, gap ++ '=' :: ' ' :: rest⟩ =
      Token.written .punctuator (gap.any isLineTerminator) (offset + byteLength gap) ['='] (' ' :: rest) := by
  rw [Token.read_append blank (by decide) (by decide)]
  exact Token.between_append .punctuator (gap.any isLineTerminator) (offset + byteLength gap) ['=']
    (' ' :: rest)

theorem Token.read_literal {quote : Char} (isQuote : quote = '\'' ∨ quote = '"') {value : List Char}
    (plain : ∀ c ∈ value, c ≠ quote ∧ c ≠ '\\' ∧ c ≠ '\n' ∧ c ≠ '\r') (rest : List Char) :
    Token.read ⟨offset, gap ++ (quote :: (value ++ [quote]) ++ rest)⟩ =
      Token.written .string (gap.any isLineTerminator) (offset + byteLength gap)
        (quote :: (value ++ [quote])) rest := by
  have opens : opensToken quote = true ∧ quote ≠ '#' := by
    rcases isQuote with rfl | rfl
    all_goals decide
  have closed := stringEnd_append plain isQuote (offset + byteLength gap + quote.utf8Size) rest
  rw [List.cons_append, List.append_assoc, List.singleton_append,
    Token.read_append blank opens.1 opens.2]
  have word : Token.readAt (gap.any isLineTerminator)
      ⟨offset + byteLength gap, quote :: (value ++ quote :: rest)⟩ =
      Token.between .string ⟨offset + byteLength gap, quote :: (value ++ quote :: rest)⟩
        ⟨offset + byteLength gap + quote.utf8Size + byteLength (value ++ [quote]), rest⟩
        (gap.any isLineTerminator) := by
    rcases isQuote with rfl | rfl
    all_goals simp only [Token.readAt, Cursor.next, closed]; rfl
  have behind := Token.between_append .string (gap.any isLineTerminator) (offset + byteLength gap)
    (quote :: (value ++ [quote])) rest
  rw [word, ← behind]
  simp only [List.cons_append, List.append_assoc, List.nil_append, byteLength, Nat.add_assoc]

end Read

/-! ### Phrases -/

/-- A word that a text is put together from. -/
inductive Word
  | name (spelling : String)
  /-- A punctuator that no longer one begins with. -/
  | mark (c : Char)
  /-- The sign of an assignment. -/
  | equals
  /-- A string without escapes. -/
  | literal (quote : Char) (value : List Char)

namespace Word

def text : Word → List Char
  | .name spelling => spelling.toList
  | .mark c => [c]
  | .equals => ['=']
  | .literal quote value => quote :: (value ++ [quote])

def kind : Word → TokenKind
  | .name _ => .identifier
  | .mark _ | .equals => .punctuator
  | .literal _ _ => .string

/-- The word is one, and what stands behind it does not go on with it. -/
def Fits (rest : List Char) : Word → Prop
  | .name spelling => isIdentifier spelling = true ∧ endsIdentifier rest = true
  | .mark c => c ∈ singleMarks
  | .equals => rest.head? = some ' '
  | .literal quote value =>
    (quote = '\'' ∨ quote = '"') ∧ ∀ c ∈ value, c ≠ quote ∧ c ≠ '\\' ∧ c ≠ '\n' ∧ c ≠ '\r'

end Word

theorem Token.read_word {gap : List Char} (blank : ∀ c ∈ gap, Unicode.isBlank c = true) (offset : Nat)
    {word : Word} {rest : List Char} (fits : word.Fits rest) :
    Token.read ⟨offset, gap ++ (word.text ++ rest)⟩ =
      Token.written word.kind (gap.any isLineTerminator) (offset + byteLength gap) word.text rest := by
  cases word with
  | name spelling => exact Token.read_identifier blank offset fits.1 fits.2
  | mark c => exact Token.read_mark blank offset fits rest
  | equals =>
      obtain ⟨more, rfl⟩ : ∃ more, rest = ' ' :: more := by
        cases rest with
        | nil => cases fits
        | cons c cs => exact ⟨cs, by rw [Option.some.inj fits]⟩
      exact Token.read_equals blank offset more
  | literal quote value => exact Token.read_literal blank offset fits.1 fits.2 rest

/-- Words with a gap before each. -/
abbrev Phrase := List (List Char × Word)

namespace Phrase

def text (phrase : Phrase) : List Char :=
  phrase.flatMap fun piece => piece.1 ++ piece.2.text

/-- The phrase is made of words and gaps, and no word goes on with the one before it. -/
def Fits (rest : List Char) : Phrase → Prop
  | [] => True
  | (gap, word) :: phrase =>
    (∀ c ∈ gap, Unicode.isBlank c = true) ∧ word.Fits (text phrase ++ rest) ∧ Fits rest phrase

/-- The tokens from a place on are the words of the phrase, the last of which ends at `stop`. -/
def Reads (stop : Cursor) : Cursor → Phrase → Prop
  | place, [] => place = stop
  | place, (gap, word) :: phrase =>
    (Token.read place).kind = word.kind ∧ (Token.read place).text = String.ofList word.text ∧
      (Token.read place).escaped = false ∧
      (Token.read place).newlineBefore = gap.any isLineTerminator ∧
      Reads stop (Token.read place).last phrase

/-- A text that is put together from words is read as these words. -/
theorem Fits.reads {phrase : Phrase} {rest : List Char} (fits : phrase.Fits rest) (offset : Nat) :
    phrase.Reads ⟨offset + byteLength phrase.text, rest⟩ ⟨offset, phrase.text ++ rest⟩ := by
  induction phrase generalizing offset with
  | nil => rfl
  | cons piece phrase ih =>
      obtain ⟨gap, word⟩ := piece
      obtain ⟨blank, fitsHere, later⟩ := fits
      have here := Token.read_word blank offset fitsHere
      have length : offset + byteLength (text ((gap, word) :: phrase)) =
          offset + byteLength gap + byteLength word.text + byteLength (text phrase) := by
        simp only [text, List.flatMap_cons, byteLength_append]
        omega
      have split : text ((gap, word) :: phrase) ++ rest = gap ++ (word.text ++ (text phrase ++ rest)) := by
        simp only [text, List.flatMap_cons, List.append_assoc]
      rw [split, length, Reads, here]
      exact ⟨rfl, rfl, rfl, rfl, ih later _⟩

end Phrase

end Script

end BindingRepair
