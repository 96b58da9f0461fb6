/-
# Glob patterns

Patterns over paths. A question mark stands for one character, a star for any characters of one
component, two stars for any components, and brackets for one character of a class or outside it. Only
two stars match slashes. All other characters stand for themselves.
-/

namespace BindingRepair

/-- The characters from one to another. -/
structure CharRange where
  first : Char
  last : Char
deriving DecidableEq, Repr

def CharRange.contains (r : CharRange) (c : Char) : Bool :=
  r.first ≤ c && c ≤ r.last

inductive GlobToken
  | char (c : Char)
  | anyChar
  /-- Any characters of a component. -/
  | anyName
  /-- Any components. -/
  | anyPath
  /-- One character of a class, or outside it if the class is negated. -/
  | charClass (negated : Bool) (ranges : List CharRange)
deriving DecidableEq, Repr

inductive GlobErrorCause
  /-- Three stars or more. -/
  | tooManyStars
  /-- Two stars together with other characters in a component. -/
  | partialComponent
  /-- A bracket without its end. -/
  | openClass
deriving DecidableEq, Repr

structure GlobError where
  /-- How many characters precede the error. -/
  offset : Nat
  cause : GlobErrorCause
deriving DecidableEq, Repr

namespace GlobError

def causeText : GlobErrorCause → String
  | .tooManyStars => "wildcards are either regular `*` or recursive `**`"
  | .partialComponent => "recursive wildcards must form a single path component"
  | .openClass => "invalid range pattern"

/-- The error in words. -/
def message (e : GlobError) : String :=
  "Pattern syntax error near position " ++ toString e.offset ++ ": " ++ causeText e.cause

end GlobError

structure Glob where
  tokens : List GlobToken
deriving DecidableEq, Repr

namespace Glob

/-! ### Reading patterns -/

/-- The ranges that the text of a class lists. -/
def classRanges : List Char → List CharRange
  | a :: '-' :: b :: cs => ⟨a, b⟩ :: classRanges cs
  | a :: cs => ⟨a, a⟩ :: classRanges cs
  | [] => []

/-- A class whose opening bracket is read, and what follows its end. Its first character may be a
closing bracket. -/
def readClass? : List Char → Option (GlobToken × List Char)
  | [] => none
  | '!' :: cs =>
    match cs with
    | [] => none
    | c :: cs =>
      match cs.span (· != ']') with
      | (_, []) => none
      | (inside, _ :: rest) => some (.charClass true (classRanges (c :: inside)), rest)
  | c :: cs =>
    match cs.span (· != ']') with
    | (_, []) => none
    | (inside, _ :: rest) => some (.charClass false (classRanges (c :: inside)), rest)

/-- Puts a token for any components behind the tokens read so far, last first. It merges with one that
is there, unless that is the only one. -/
def addAnyPath : List GlobToken → List GlobToken
  | .anyPath :: t :: ts => .anyPath :: t :: ts
  | ts => .anyPath :: ts

/-- The tokens of a pattern from an offset on. `before` is the character in front of it, `acc` holds
the tokens read so far, last first; each takes one of at most `bound` rounds. -/
def readTokens : (bound : Nat) → (offset : Nat) → (before : Option Char) → List GlobToken →
    List Char → Except GlobError (List GlobToken)
  | 0, _, _, acc, _ => .ok acc.reverse
  | _ + 1, _, _, acc, [] => .ok acc.reverse
  | bound + 1, offset, before, acc, c :: cs =>
    match c, cs with
    | '?', cs => readTokens bound (offset + 1) (some '?') (.anyChar :: acc) cs
    | '*', '*' :: '*' :: _ => .error ⟨offset + 2, .tooManyStars⟩
    | '*', '*' :: cs =>
      if before.any (· != '/') then .error ⟨offset - 1, .partialComponent⟩
      else
        match cs with
        | [] => readTokens bound (offset + 2) (some '*') (addAnyPath acc) []
        | '/' :: cs => readTokens bound (offset + 3) (some '/') (addAnyPath acc) cs
        | _ :: _ => .error ⟨offset + 2, .partialComponent⟩
    | '*', cs => readTokens bound (offset + 1) (some '*') (.anyName :: acc) cs
    | '[', cs =>
      match readClass? cs with
      | none => .error ⟨offset, .openClass⟩
      | some (token, rest) =>
        readTokens bound (offset + 1 + (cs.length - rest.length)) (some ']') (token :: acc) rest
    | c, cs => readTokens bound (offset + 1) (some c) (.char c :: acc) cs

/-- The pattern that a text describes. -/
def ofText (text : String) : Except GlobError Glob := do
  return ⟨← readTokens (text.length + 1) 0 none [] text.toList⟩

/-! ### Matching -/

/-- Whether a token that stands for one character stands for `c`. -/
def tokenMatches (token : GlobToken) (c : Char) : Bool :=
  match token with
  | .char d => c == d
  | .anyChar => c != '/'
  | .charClass negated ranges => c != '/' && (ranges.any (·.contains c) != negated)
  | .anyName | .anyPath => false

inductive MatchResult
  | found
  /-- Not with what has been matched so far. -/
  | failed
  /-- The text is too short, however it is matched. -/
  | exhausted
deriving DecidableEq, Repr

/-- Tries to match what follows a star after more and more characters. `crossing` allows slashes among
them and then tries only behind slashes; `tryHere` is whether to try at once. -/
def matchStretch (rest : List Char → MatchResult) (crossing : Bool) :
    (tryHere : Bool) → List Char → MatchResult
  | _, [] => rest []
  | tryHere, c :: cs =>
    match if tryHere then rest (c :: cs) else .failed with
    | .failed =>
      if c == '/' && !crossing then .failed
      else matchStretch rest crossing (!crossing || c == '/') cs
    | result => result

/-- Matches tokens against a whole text. -/
def matchTokens : List GlobToken → List Char → MatchResult
  | [] => fun cs => if cs.isEmpty then .found else .failed
  | .anyName :: tokens => matchStretch (matchTokens tokens) false true
  | .anyPath :: tokens => matchStretch (matchTokens tokens) true true
  | token :: tokens => fun
    | [] => .exhausted
    | c :: cs => if tokenMatches token c then matchTokens tokens cs else .failed

/-- Whether a pattern matches a path. -/
def isMatch (g : Glob) (path : String) : Bool :=
  matchTokens g.tokens path.toList = .found

end Glob

end BindingRepair
