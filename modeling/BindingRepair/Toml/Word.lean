/-
# Words in TOML

A value without quotes and brackets is a word: a boolean, a number, or a moment. Underscores may stand
between the digits of a number.
-/

import BindingRepair.Toml.Value

namespace BindingRepair.Toml.Word

open Text

/-- The characters that end a word. -/
def delimiters : List Char :=
  ['=', ',', '[', ']', '\x7b', '\x7d', '#', '\'', '"', ' ', '\t', '\r', '\n']

def isWordChar (c : Char) : Bool :=
  !delimiters.contains c

/-- A word and what follows it. A date and a time with blanks between them are one word. -/
def read (cs : List Char) : List Char × List Char :=
  let (word, rest) := cs.span isWordChar
  let (gap, more) := rest.span fun c => c == ' ' || c == '\t'
  let (second, behind) := more.span isWordChar
  if gap.isEmpty || second.isEmpty || second.head? == some '.' then (word, rest)
  else (word ++ gap ++ second, behind)

/-! ### Numbers -/

/-- A number without its underscores, which must stand between digits. -/
def joinParts? (isDigit : Char → Bool) (number : List Char) : Option (List Char) :=
  match number.splitOn '_' with
  | [_] => some number
  | parts =>
    if parts.any (·.isEmpty) then none
    else if parts.tail.all (fun part => part.head?.any isDigit) &&
        parts.dropLast.all fun part => part.length == 1 || part.getLast?.any isDigit then
      some parts.flatten
    else none

/-- The integer that digits stand for, perhaps behind a sign. -/
def decimal? : List Char → Option Int
  | '-' :: digits => (numberInBase? 10 digits).map fun (n : Nat) => -(n : Int)
  | '+' :: digits => (numberInBase? 10 digits).map fun (n : Nat) => (n : Int)
  | digits => (numberInBase? 10 digits).map fun (n : Nat) => (n : Int)

def isHexDigit (c : Char) : Bool :=
  (hexValue? c).isSome

/-- An integer; a word that is laid out like one but has digits of another base is still a number. -/
def integer? (value : List Char → Option Int) (word number : List Char) : Option Value := do
  let digits ← joinParts? isHexDigit number
  match value digits with
  | some n => return .integer n
  | none => return .real (String.ofList word)

/-- An integer in a base other than ten, whose sign of that base is read. -/
def based? (base : Nat) (word number : List Char) : Option Value :=
  if number.all fun c => c == '_' || (hexValue? c).any (· < base) then
    integer? (fun digits => (numberInBase? base digits).map fun (n : Nat) => (n : Int)) word number
  else none

/-- What follows a run of digits and underscores, in which there must be a digit. Of several digits the
first may be zero only behind a point or an exponent. -/
def skipDigits? (leadingZeros : Bool) (cs : List Char) : Option (List Char) :=
  let run := cs.takeWhile fun c => c.isDigit || c == '_'
  let count := run.countP Char.isDigit
  if count = 0 then none
  else if !leadingZeros && 1 < count && cs.head? == some '0' then none
  else some (cs.drop run.length)

/-- What follows the fraction that a point begins, if one comes next. -/
def skipFraction? : List Char → Option (List Char)
  | '.' :: cs => skipDigits? true cs
  | cs => some cs

/-- What follows an exponent, if one comes next. -/
def skipExponent? : List Char → Option (List Char)
  | 'e' :: '+' :: cs | 'e' :: '-' :: cs | 'E' :: '+' :: cs | 'E' :: '-' :: cs
  | 'e' :: cs | 'E' :: cs => skipDigits? true cs
  | cs => some cs

/-- Whether a number without its sign has a proper fraction or exponent. -/
def isReal (number : List Char) : Bool :=
  (skipDigits? false number >>= skipFraction? >>= skipExponent?) == some []

/-- The number or the moment that a word stands for; `body` is the word without its sign. -/
def numberOrMoment? (word body : List Char) : Option Value :=
  match body.span Char.isDigit with
  | ([], []) => none
  | (_, []) =>
    if body.head? == some '0' && 1 < body.length then none else integer? decimal? word word
  | (_, '-' :: _) | (_, ':' :: _) => (Moment.ofWord? word).map .moment
  | (_, rest) =>
    if rest.contains ' ' then none
    else if rest.any fun c => c == '.' || c == 'e' || c == 'E' then
      if isReal body then
        (joinParts? Char.isDigit word).map fun _ => .real (String.ofList word)
      else none
    else if rest.head? == some '_' && body.head? != some '0' then integer? decimal? word word
    else none

/-- The value that a word stands for. -/
def value? (word : List Char) : Option Value :=
  match word with
  | '0' :: 'x' :: number => based? 16 word number
  | '0' :: 'o' :: number => based? 8 word number
  | '0' :: 'b' :: number => based? 2 word number
  | _ =>
    let body := match word with
      | '+' :: body | '-' :: body => body
      | _ => word
    match String.ofList word, String.ofList body with
    | "true", _ => some (.boolean true)
    | "false", _ => some (.boolean false)
    | _, "inf" | _, "nan" => some (.real (String.ofList word))
    | _, _ => numberOrMoment? word body

end BindingRepair.Toml.Word
