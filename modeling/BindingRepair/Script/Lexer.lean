/-
# Reading tokens

`Token.read` reads the token at a cursor as it reads within an ordinary expression. Where the context
gives the same characters another meaning (regular expressions, template continuations, element text,
element names and attribute strings, closing angle brackets) the grammar calls one of the functions
that read a token again from its first character. Reading never fails: what is no token becomes one
of the kind `invalid`.
-/

import BindingRepair.Identifier
import BindingRepair.Text.Lines
import BindingRepair.Script.Token
import BindingRepair.Unicode.Blank

namespace BindingRepair.Script

open Text

/-- The character that delimits template literals. -/
def templateQuote : Char := '\x60'

def isHexDigit (c : Char) : Bool :=
  c.isDigit || ('a' ≤ c && c ≤ 'f') || ('A' ≤ c && c ≤ 'F')

/-! ### Characters of names -/

def isAscii (c : Char) : Bool :=
  c.val < 0x80

/-- The characters that a name begins with in a script: in ASCII the letters and two marks, beyond it
what is alphabetic. -/
def opensName (c : Char) : Bool :=
  c == '$' || c == '_' || c.isAlpha || (!isAscii c && Unicode.isAlphabetic c)

/-- The characters that go on with a name in a script. -/
def continuesName (c : Char) : Bool :=
  opensName c || c.isDigit || c == '\u200c' || c == '\u200d' || (!isAscii c && Unicode.isAlphanumeric c)

theorem isAscii_of_isAlpha {c : Char} (letter : c.isAlpha = true) : isAscii c = true := by
  have upTo : c.val ≤ 'z'.val := by
    rcases (Bool.or_eq_true_iff.mp letter : c.isUpper = true ∨ c.isLower = true) with upper | lower
    · exact UInt32.le_trans (of_decide_eq_true upper).2 (by decide)
    · exact of_decide_eq_true (Bool.and_eq_true_iff.mp lower).2
  exact decide_eq_true (UInt32.lt_of_le_of_lt upTo (by decide))

theorem isAscii_of_isDigit {c : Char} (digit : c.isDigit = true) : isAscii c = true :=
  decide_eq_true (UInt32.lt_of_le_of_lt (of_decide_eq_true (Bool.and_eq_true_iff.mp digit).2) (by decide))

theorem isAlphabetic_eq (c : Char) :
    Unicode.isAlphabetic c = (c.isAlpha || (!isAscii c && Unicode.isAlphabetic c)) := by
  cases ascii : isAscii c with
  | true =>
    have below : c.val < 0x80 := of_decide_eq_true ascii
    simp [Unicode.isAlphabetic, below]
  | false =>
    have noLetter : c.isAlpha = false := Bool.eq_false_iff.mpr fun letter => by
      simp [isAscii_of_isAlpha letter] at ascii
    simp [noLetter]

theorem isNumeric_eq (c : Char) :
    Unicode.isNumeric c = (c.isDigit || (!isAscii c && Unicode.isNumeric c)) := by
  cases ascii : isAscii c with
  | true =>
    have below : c.val < 0x80 := of_decide_eq_true ascii
    simp [Unicode.isNumeric, below]
  | false =>
    have noDigit : c.isDigit = false := Bool.eq_false_iff.mpr fun digit => by
      simp [isAscii_of_isDigit digit] at ascii
    simp [noDigit]

/-- Names of a script begin with the characters that identifiers begin with. -/
@[simp] theorem opensName_eq_isIdentifierStart (c : Char) : opensName c = isIdentifierStart c := by
  rw [opensName, isIdentifierStart, Bool.or_assoc _ c.isAlpha, ← isAlphabetic_eq, Bool.or_comm (c == '$')]

/-- Names of a script go on with the characters that identifiers go on with. -/
@[simp] theorem continuesName_eq_isIdentifierPart (c : Char) : continuesName c = isIdentifierPart c := by
  have alphabetic := isAlphabetic_eq c
  have numeric := isNumeric_eq c
  simp only [continuesName, opensName_eq_isIdentifierStart, isIdentifierStart, isIdentifierPart,
    Unicode.isAlphanumeric]
  grind

/-! ### Between tokens -/

/-- What the characters between two tokens belong to. -/
inductive Trivia
  | blanks
  | lineComment
  /-- A comment in brackets; whether a line terminator was seen in it. -/
  | blockComment (newline : Bool)

/-- The first place from which on a token may begin, and whether a line terminator lies before it.
The line terminators of an unterminated comment do not count. -/
def triviaEnd : Trivia → Bool → Nat → List Char → Bool × Cursor
  | _, newline, offset, [] => (newline, ⟨offset, []⟩)
  | .blanks, newline, offset, '/' :: '/' :: cs => triviaEnd .lineComment newline (offset + 2) cs
  | .blanks, newline, offset, '/' :: '*' :: cs =>
    triviaEnd (.blockComment false) newline (offset + 2) cs
  | .blanks, newline, offset, c :: cs =>
    if isLineTerminator c then triviaEnd .blanks true (offset + c.utf8Size) cs
    else if Unicode.isBlank c || c == '\ufeff' then
      triviaEnd .blanks newline (offset + c.utf8Size) cs
    else (newline, ⟨offset, c :: cs⟩)
  | .lineComment, newline, offset, c :: cs =>
    if isLineTerminator c then triviaEnd .blanks true (offset + c.utf8Size) cs
    else triviaEnd .lineComment newline (offset + c.utf8Size) cs
  | .blockComment inner, newline, offset, '*' :: '/' :: cs =>
    triviaEnd .blanks (newline || inner) (offset + 2) cs
  | .blockComment inner, newline, offset, c :: cs =>
    triviaEnd (.blockComment (inner || isLineTerminator c)) newline (offset + c.utf8Size) cs

/-- Skips white space and comments, and at the start of the text a line that begins with `#!`. -/
def skipTrivia (c : Cursor) : Bool × Cursor :=
  if c.offset == 0 && c.startsWith "#!" then triviaEnd .lineComment false c.offset c.rest
  else triviaEnd .blanks false c.offset c.rest

/-! ### Names -/

/-- The place behind the escape `\uXXXX` or `\u{X}` at the cursor, if there is one. -/
def pastEscape? (c : Cursor) : Option Cursor :=
  match c.rest with
  | '\\' :: 'u' :: '{' :: digits =>
    let closing := Cursor.skipWhile isHexDigit ⟨c.offset + 3, digits⟩
    if c.offset + 3 < closing.offset && closing.peek? == some '}' then some closing.next else none
  | '\\' :: 'u' :: w :: x :: y :: z :: rest =>
    if [w, x, y, z].all isHexDigit then some ⟨c.offset + 6, rest⟩ else none
  | _ => none

/-- Whether a character may stand in an identifier, at its beginning or further on. -/
def mayStand (first : Bool) (c : Char) : Bool :=
  if first then opensName c else continuesName c

/-- The place behind one character of an identifier, and whether it is spelled as an escape. An
escape may stand for any character. -/
def pastIdentifierChar? (first : Bool) (c : Cursor) : Option (Cursor × Bool) :=
  match c.peek? with
  | none => none
  | some x =>
    if x == '\\' then (pastEscape? c).map fun d => (d, true)
    else if mayStand first x then some (c.next, false)
    else none

theorem length_skipWhile_go_le (p : Char → Bool) (offset : Nat) (cs : List Char) :
    (Cursor.skipWhile.go p offset cs).rest.length ≤ cs.length := by
  induction cs generalizing offset with
  | nil => simp [Cursor.skipWhile.go]
  | cons c cs ih =>
    unfold Cursor.skipWhile.go
    split
    · exact Nat.le_succ_of_le (ih _)
    · simp

theorem length_next_le (c : Cursor) : c.next.rest.length ≤ c.rest.length := by
  unfold Cursor.next
  split <;> simp_all

theorem length_next_lt {c : Cursor} {x : Char} (h : c.peek? = some x) :
    c.next.rest.length < c.rest.length := by
  unfold Cursor.peek? at h
  unfold Cursor.next
  split <;> simp_all

theorem length_pastEscape?_lt {c d : Cursor} (h : pastEscape? c = some d) :
    d.rest.length < c.rest.length := by
  unfold pastEscape? at h
  split at h
  · rename_i digits hc
    dsimp only at h
    split at h
    · obtain rfl := Option.some.inj h
      have h₁ := length_next_le (Cursor.skipWhile isHexDigit ⟨c.offset + 3, digits⟩)
      have h₂ := length_skipWhile_go_le isHexDigit (c.offset + 3) digits
      simp only [Cursor.skipWhile] at h₁ h₂ ⊢
      simp only [hc, List.length_cons]
      omega
    · simp at h
  · rename_i rest hc
    split at h
    · obtain rfl := Option.some.inj h
      simp only [hc, List.length_cons]
      omega
    · simp at h
  · simp at h

/-- One character of an identifier is at least one character of the text. -/
theorem length_pastIdentifierChar?_lt {first : Bool} {c d : Cursor} {escaped : Bool}
    (h : pastIdentifierChar? first c = some (d, escaped)) : d.rest.length < c.rest.length := by
  unfold pastIdentifierChar? at h
  split at h
  · simp at h
  · rename_i x hx
    split at h
    · obtain ⟨e, he, heq⟩ := Option.map_eq_some_iff.1 h
      obtain ⟨rfl, _⟩ := Prod.mk.inj heq
      exact length_pastEscape?_lt he
    · split at h
      · obtain ⟨rfl, _⟩ := Prod.mk.inj (Option.some.inj h)
        exact length_next_lt hx
      · simp at h

/-- The place behind the characters of an identifier, and whether one of them is an escape; `first`
tells whether the identifier begins at the cursor. -/
def skipIdentifier (first : Bool) (escaped : Bool) (c : Cursor) : Cursor × Bool :=
  match _h : pastIdentifierChar? first c with
  | none => (c, escaped)
  | some (d, e) => skipIdentifier false (escaped || e) d
termination_by c.rest.length
decreasing_by exact length_pastIdentifierChar?_lt _h

/-! ### Literals -/

/-- Whether a character is a digit of the given base, of 2, 8, 10 and 16. -/
def isDigitOf (base : Nat) (c : Char) : Bool :=
  if base == 16 then isHexDigit c else c.isDigit && c.toNat - '0'.toNat < base

/-- Digits and underscores. -/
def skipDigits (base : Nat) (c : Cursor) : Cursor :=
  c.skipWhile fun x => x == '_' || isDigitOf base x

/-- Moves over the character at the cursor if it satisfies `p`. -/
def skipIf (p : Char → Bool) (c : Cursor) : Cursor :=
  if c.peek?.any p then c.next else c

/-- An exponent; one without digits is none. -/
def skipExponent (c : Cursor) : Cursor :=
  if c.peek?.any fun x => x == 'e' || x == 'E' then
    let digits := skipIf (fun x => x == '+' || x == '-') c.next
    if digits.peek?.any Char.isDigit then skipDigits 10 digits else c
  else c

/-- The place behind a numeric literal. -/
def skipNumber (c : Cursor) : Cursor :=
  let base :=
    match c.rest with
    | '0' :: x :: _ =>
      if x == 'x' || x == 'X' then 16
      else if x == 'o' || x == 'O' then 8
      else if x == 'b' || x == 'B' then 2
      else 10
    | _ => 10
  let digits :=
    if base == 10 then
      let whole := skipDigits 10 c
      let fraction := if whole.peek? == some '.' then skipDigits 10 whole.next else whole
      skipExponent fraction
    else skipDigits base (c.skip 2)
  skipIf (· == 'n') digits

/-- The place behind the characters of a string literal whose opening quote is read, and whether it
has a closing one. -/
def stringEnd (quote : Char) (offset : Nat) : List Char → TokenKind × Cursor
  | [] => (.invalid, ⟨offset, []⟩)
  | '\n' :: cs => (.invalid, ⟨offset, '\n' :: cs⟩)
  | '\r' :: cs => (.invalid, ⟨offset, '\r' :: cs⟩)
  | '\\' :: '\r' :: '\n' :: cs => stringEnd quote (offset + 3) cs
  | '\\' :: c :: cs => stringEnd quote (offset + 1 + c.utf8Size) cs
  | c :: cs =>
    if c == quote then (.string, ⟨offset + c.utf8Size, cs⟩)
    else stringEnd quote (offset + c.utf8Size) cs

/-- The place behind template characters, up to and with the closing quote, where the token is the
part `closed`, or the next substitution mark, where it is the part `open`. -/
def templateEnd (closed opened : TemplatePart) (offset : Nat) : List Char → TokenKind × Cursor
  | [] => (.invalid, ⟨offset, []⟩)
  | '\\' :: c :: cs => templateEnd closed opened (offset + 1 + c.utf8Size) cs
  | '$' :: '{' :: cs => (.template opened, ⟨offset + 2, cs⟩)
  | c :: cs =>
    if c == templateQuote then (.template closed, ⟨offset + c.utf8Size, cs⟩)
    else templateEnd closed opened (offset + c.utf8Size) cs

/-- The place behind the pattern of a regular expression whose opening slash is read, and whether it
has a closing one; a slash in a class does not close it. -/
def regexEnd (inClass : Bool) (offset : Nat) : List Char → TokenKind × Cursor
  | [] => (.invalid, ⟨offset, []⟩)
  | '\\' :: [] => (.invalid, ⟨offset + 1, []⟩)
  | '\\' :: c :: cs =>
    if isLineTerminator c then (.invalid, ⟨offset + 1, c :: cs⟩)
    else regexEnd inClass (offset + 1 + c.utf8Size) cs
  | c :: cs =>
    if isLineTerminator c then (.invalid, ⟨offset, c :: cs⟩)
    else if c == '[' then regexEnd true (offset + 1) cs
    else if c == ']' then regexEnd false (offset + 1) cs
    else if c == '/' && !inClass then (.regex, ⟨offset + 1, cs⟩)
    else regexEnd inClass (offset + c.utf8Size) cs

/-- The place behind the punctuator at the cursor, the longest there is. A question mark and a point
before a digit are two tokens. -/
def pastPunctuator? (c : Cursor) : Option Cursor :=
  let fits (mark : List Char) : Bool :=
    mark.isPrefixOf c.rest && !(mark == ['?', '.'] && (c.peekAt? 2).any Char.isDigit)
  (punctuators.find? fits).map fun mark => c.skip mark.length

namespace Token

/-! ### Reading -/

/-- The token that begins at a place. -/
def readAt (newline : Bool) (first : Cursor) : Token :=
  match first.rest with
  | [] => atEnd first newline
  | c :: cs =>
    if opensName c || c == '\\' then
      match pastIdentifierChar? true first with
      | none => between .invalid first first.next newline
      | some (d, e) =>
        let (last, escaped) := skipIdentifier false e d
        between .identifier first last newline escaped
    else if c.isDigit || (c == '.' && cs.head?.any Char.isDigit) then
      between .number first (skipNumber first) newline
    else if c == '\'' || c == '"' then
      let (kind, last) := stringEnd c first.next.offset cs
      between kind first last newline
    else if c == templateQuote then
      let (kind, last) := templateEnd .full .head first.next.offset cs
      between kind first last newline
    else if c == '#' && cs.head?.any opensName then
      between .privateName first (skipIdentifier true false first.next).1 newline
    else
      match pastPunctuator? first with
      | some last => between .punctuator first last newline
      | none => between .invalid first first.next newline

/-- The next token from a place on. -/
def read (from' : Cursor) : Token :=
  let (newline, first) := skipTrivia from'
  readAt newline first

/-- The token behind a token. -/
def following (t : Token) : Token :=
  read t.last

/-! ### Reading again in another context -/

/-- Reads a slash again as the regular expression that it opens. -/
def asRegex (t : Token) : Token :=
  let body := t.first.next
  match regexEnd false body.offset body.rest with
  | (.regex, closing) => between .regex t.first (closing.skipWhile continuesName) t.newlineBefore
  | (kind, closing) => between kind t.first closing t.newlineBefore

/-- Reads a closing brace again as the template piece that it opens. -/
def asTemplateContinuation (t : Token) : Token :=
  let body := t.first.next
  let (kind, last) := templateEnd .tail .middle body.offset body.rest
  between kind t.first last t.newlineBefore

/-- Reads the child of an element at a place: text up to the next brace or angle bracket, or that
mark. -/
def readChild (place : Cursor) : Token :=
  match place.peek? with
  | none => atEnd place false
  | some c =>
    if c == '{' || c == '<' then between .punctuator place place.next false
    else between .jsxText place (place.skipWhile fun x => x != '{' && x != '<') false

/-- Extends an identifier over the hyphens and further parts of an element or attribute name. -/
def asElementName (t : Token) : Token :=
  if t.kind == .identifier then
    between .identifier t.first (t.last.skipWhile fun c => c == '-' || continuesName c)
      t.newlineBefore t.escaped
  else t

/-- Reads an attribute string again, in which backslashes stand for themselves and lines may end. -/
def asAttributeString (t : Token) : Token :=
  match t.first.peek? with
  | none => t
  | some quote =>
    if quote == '"' || quote == '\'' then
      let closing := t.first.next.skipWhile (· != quote)
      let kind := if closing.peek?.isSome then TokenKind.string else .invalid
      between kind t.first closing.next t.newlineBefore
    else t

/-- Cuts a punctuator that begins with `>` down to that character. -/
def asGreater (t : Token) : Token :=
  if t.opensWithGreater then between .punctuator t.first t.first.next t.newlineBefore else t

end Token

end BindingRepair.Script
