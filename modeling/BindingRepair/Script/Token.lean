/-
# Tokens

The words of a script, each with the place where it begins and the place behind it, and the tables of
punctuators, reserved words and operators.
-/

import BindingRepair.Text.Span

namespace BindingRepair.Script

open Text

/-- Which piece of a template literal a template token covers. -/
inductive TemplatePart
  /-- The whole literal: it has no substitution. -/
  | full
  /-- From the opening quote to the first substitution. -/
  | head
  /-- Between two substitutions. -/
  | middle
  /-- From the last substitution to the closing quote. -/
  | tail
deriving DecidableEq, Repr

inductive TokenKind
  /-- An identifier or a keyword; the text tells which. -/
  | identifier
  /-- A name behind a number sign. -/
  | privateName
  | number
  | string
  | template (part : TemplatePart)
  | regex
  | punctuator
  | jsxText
  /-- An unterminated literal or a character that begins no token. -/
  | invalid
  | endOfText
deriving DecidableEq, Repr

structure Token where
  kind : TokenKind
  /-- Where the token begins. -/
  first : Cursor
  /-- The place behind the token. -/
  last : Cursor
  /-- The characters of the token. -/
  text : String
  /-- A line terminator lies between the token before and this one. -/
  newlineBefore : Bool
  /-- The identifier is spelled with an escape, so that it is no keyword. -/
  escaped : Bool

namespace Token

/-- The token between two places. -/
def between (kind : TokenKind) (first last : Cursor) (newlineBefore : Bool)
    (escaped : Bool := false) : Token :=
  { kind, first, last, text := first.textTo last, newlineBefore, escaped }

/-- The token that stands for the end of the text. -/
def atEnd (place : Cursor) (newlineBefore : Bool) : Token :=
  { kind := .endOfText, first := place, last := place, text := "", newlineBefore, escaped := false }

/-- Offset of the first byte. -/
def start (t : Token) : Nat :=
  t.first.offset

/-- Offset behind the last byte. -/
def stop (t : Token) : Nat :=
  t.last.offset

def span (t : Token) : Span :=
  ⟨t.start, t.stop⟩

/-- Whether the token is the given punctuator. -/
def isPunctuator (t : Token) (mark : String) : Bool :=
  t.kind == .punctuator && t.text == mark

/-- Whether the token is a word without escapes, so that it may be a keyword. -/
def isWord (t : Token) : Bool :=
  t.kind == .identifier && !t.escaped

/-- Whether the token is the given keyword. -/
def isKeyword (t : Token) (word : String) : Bool :=
  t.isWord && t.text == word

/-- Whether the token is a punctuator that begins with `>`. -/
def opensWithGreater (t : Token) : Bool :=
  t.kind == .punctuator && t.text.toList.head? == some '>'

/-- Whether a template literal begins with the token. -/
def isTemplateStart (t : Token) : Bool :=
  t.kind == .template .full || t.kind == .template .head

end Token

/-- The punctuators, longer ones before those they begin with. -/
def punctuators : List (List Char) :=
  [">>>=", "...", "===", "!==", "**=", "<<=", ">>=", ">>>", "&&=", "||=", "??=", "=>", "==", "!=",
    "<=", ">=", "&&", "||", "??", "?.", "++", "--", "+=", "-=", "*=", "/=", "%=", "&=", "|=", "^=",
    "**", "<<", ">>", "\x7b", "\x7d", "(", ")", "[", "]", ";", ",", "<", ">", "+", "-", "*", "/", "%",
    "&", "|", "^", "!", "~", "?", ":", "=", ".", "@", "#"].map String.toList

/-- The words that never name a binding. -/
def reservedWords : List String :=
  ["break", "case", "catch", "class", "const", "continue", "debugger", "default", "delete", "do",
    "else", "enum", "export", "extends", "false", "finally", "for", "function", "if", "import", "in",
    "instanceof", "new", "null", "return", "super", "switch", "this", "throw", "true", "try",
    "typeof", "var", "void", "while", "with"]

def isReservedWord (word : String) : Bool :=
  reservedWords.contains word

def isAssignmentOperator (mark : String) : Bool :=
  ["=", "+=", "-=", "*=", "/=", "%=", "**=", "<<=", ">>=", ">>>=", "&=", "|=", "^=", "&&=", "||=",
    "??="].contains mark

/-- How tightly a binary operator binds; none for other words. -/
def binaryPrecedence? (operator : String) : Option Nat :=
  match operator with
  | "??" => some 1
  | "||" => some 2
  | "&&" => some 3
  | "|" => some 4
  | "^" => some 5
  | "&" => some 6
  | "==" | "!=" | "===" | "!==" => some 7
  | "<" | ">" | "<=" | ">=" | "instanceof" | "in" => some 8
  | "<<" | ">>" | ">>>" => some 9
  | "+" | "-" => some 10
  | "*" | "/" | "%" => some 11
  | "**" => some 12
  | _ => none

/-- How tightly comparisons bind, and with them the type operators `as` and `satisfies`. -/
def relationalPrecedence : Nat := 8

end BindingRepair.Script
