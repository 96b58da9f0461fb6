/-
# Reading JSON

The grammar is strict: no byte order mark, comments, trailing commas or text behind the value. Arrays
and objects nest less than 128 deep, numbers stay within the range of double-precision floats, and
strings hold neither raw control characters nor lone surrogates. Of several fields of one name the
last counts.
-/

import BindingRepair.Json.Basic
import BindingRepair.Text.Digits

namespace BindingRepair.Json

open Text

/-- How deep arrays and objects may nest. -/
def maxNesting : Nat := 127

def isSpace (c : Char) : Bool :=
  c == ' ' || c == '\n' || c == '\r' || c == '\t'

def skipSpace (cs : List Char) : List Char :=
  cs.dropWhile isSpace

/-- The code unit of four hexadecimal digits. -/
def codeUnit? (w x y z : Char) : Option Nat :=
  hexNumber? [w, x, y, z]

/-- The character behind a backslash that stands for a single character. -/
def simpleEscape? : Char → Option Char
  | '"' => some '"'
  | '\\' => some '\\'
  | '/' => some '/'
  | 'b' => some '\x08'
  | 'f' => some '\x0c'
  | 'n' => some '\n'
  | 'r' => some '\r'
  | 't' => some '\t'
  | _ => none

/-- The characters up to the closing quote, and what follows it. `high` is a leading surrogate whose
trailing one must come next, `acc` what is read so far, last character first. -/
def readString (high : Option Nat) (acc : List Char) : List Char → Option (String × List Char)
  | [] => none
  | '\\' :: 'u' :: w :: x :: y :: z :: cs =>
    match codeUnit? w x y z, high with
    | none, _ => none
    | some unit, none =>
      if 0xd800 ≤ unit && unit < 0xdc00 then readString (some unit) acc cs
      else if 0xdc00 ≤ unit && unit < 0xe000 then none
      else readString none (Char.ofNat unit :: acc) cs
    | some unit, some lead =>
      if 0xdc00 ≤ unit && unit < 0xe000 then
        readString none (Char.ofNat (0x10000 + (lead - 0xd800) * 0x400 + (unit - 0xdc00)) :: acc) cs
      else none
  | '\\' :: c :: cs =>
    match high, simpleEscape? c with
    | none, some e => readString none (e :: acc) cs
    | _, _ => none
  | c :: cs =>
    if high.isSome then none
    else if c == '"' then some (String.ofList acc.reverse, cs)
    else if c.val < 0x20 || c == '\\' then none
    else readString none (c :: acc) cs

/-- The exponent of a number literal. -/
structure ExponentPart where
  /-- The letter, and the sign if there is one. -/
  mark : List Char
  negative : Bool
  digits : List Char

/-- The parts of a number literal. -/
structure NumberLiteral where
  negative : Bool
  whole : List Char
  /-- Digits behind the point, if there is one. -/
  fraction : Option (List Char)
  exponent : Option ExponentPart

namespace NumberLiteral

/-- The literal without its point is `significand * 10 ^ scale`. -/
def significand (n : NumberLiteral) : Nat :=
  decimalValue (n.whole ++ n.fraction.getD [])

def scale (n : NumberLiteral) : Int :=
  let exponent : Int :=
    match n.exponent with
    | none => 0
    | some e => if e.negative then -(decimalValue e.digits) else decimalValue e.digits
  exponent - (n.fraction.getD []).length

/-- Whether the literal rounds to infinity as a double-precision float, which it does from half a
unit above the largest finite one on. -/
def overflows (n : NumberLiteral) : Bool :=
  let digits := (Nat.repr n.significand).length
  if n.significand == 0 then false
  else if n.scale + digits > 310 then true
  else if n.scale + digits < 300 then false
  else
    let bound := Nat.pow 2 1024 - Nat.pow 2 970
    if n.scale ≥ 0 then bound ≤ n.significand * Nat.pow 10 n.scale.toNat
    else bound * Nat.pow 10 (-n.scale).toNat ≤ n.significand

/-- The literal as it is written. -/
def text (n : NumberLiteral) : String :=
  String.ofList ((if n.negative then ['-'] else []) ++ n.whole ++
    (match n.fraction with
      | none => []
      | some digits => '.' :: digits) ++
    (match n.exponent with
      | none => []
      | some e => e.mark ++ e.digits))

/-- The value of a literal. A negative zero is no integer. -/
def value? (n : NumberLiteral) : Option Json :=
  let wide : Int := if n.negative then -(decimalValue n.whole) else decimalValue n.whole
  if n.fraction.isNone && n.exponent.isNone && isWide wide && !(n.negative && wide == 0) then
    some (integer wide)
  else if n.overflows then none
  else some (real n.text)

end NumberLiteral

/-- Digits, at least one. -/
def readDigits (cs : List Char) : Option (List Char × List Char) :=
  match cs.span Char.isDigit with
  | ([], _) => none
  | (digits, rest) => some (digits, rest)

/-- The digits of a whole number, which begin with zero only if they are that digit. -/
def readWhole : List Char → Option (List Char × List Char)
  | '0' :: cs => if cs.head?.any Char.isDigit then none else some (['0'], cs)
  | cs => readDigits cs

def readFraction : List Char → Option (Option (List Char) × List Char)
  | '.' :: cs => (readDigits cs).map fun (digits, rest) => (some digits, rest)
  | cs => some (none, cs)

def readExponent (cs : List Char) : Option (Option ExponentPart × List Char) :=
  match cs with
  | c :: rest =>
    if c == 'e' || c == 'E' then
      let (mark, negative, unsigned) :=
        match rest with
        | '-' :: ds => ([c, '-'], true, ds)
        | '+' :: ds => ([c, '+'], false, ds)
        | ds => ([c], false, ds)
      (readDigits unsigned).map fun (digits, rest) => (some { mark, negative, digits }, rest)
    else some (none, cs)
  | [] => some (none, cs)

def readNumber (cs : List Char) : Option (Json × List Char) := do
  let (negative, unsigned) :=
    match cs with
    | '-' :: rest => (true, rest)
    | _ => (false, cs)
  let (whole, afterWhole) ← readWhole unsigned
  let (fraction, afterFraction) ← readFraction afterWhole
  let (exponent, rest) ← readExponent afterFraction
  let literal : NumberLiteral := { negative, whole, fraction, exponent }
  return (← literal.value?, rest)

/-- The items of an array whose opening bracket is read; there are at most `bound` of them. -/
def readItems (item : List Char → Option (Json × List Char)) :
    (bound : Nat) → List Json → List Char → Option (Json × List Char)
  | 0, _, _ => none
  | bound + 1, acc, cs => do
    let (value, rest) ← item cs
    match skipSpace rest with
    | ',' :: more => readItems item bound (value :: acc) more
    | ']' :: more => return (array (value :: acc).reverse, more)
    | _ => none

/-- Puts a field behind the fields read so far, last first, in place of one with its name. -/
def addField (name : String) (value : Json) (acc : List (String × Json)) : List (String × Json) :=
  if (acc.lookup name).isSome then (name, value) :: acc.filter (·.1 != name)
  else (name, value) :: acc

/-- The fields of an object whose opening brace is read; there are at most `bound` of them. -/
def readFields (item : List Char → Option (Json × List Char)) :
    (bound : Nat) → List (String × Json) → List Char → Option (Json × List Char)
  | 0, _, _ => none
  | bound + 1, acc, cs => do
    let '"' :: afterQuote := skipSpace cs | none
    let (name, afterName) ← readString none [] afterQuote
    let ':' :: afterColon := skipSpace afterName | none
    let (value, rest) ← item afterColon
    match skipSpace rest with
    | ',' :: more => readFields item bound (addField name value acc) more
    | '}' :: more => return (object (addField name value acc).reverse, more)
    | _ => none

/-- A value whose arrays and objects nest at most `depth` deep and hold at most `bound` members. -/
def readValue (bound : Nat) : (depth : Nat) → List Char → Option (Json × List Char)
  | depth, cs =>
    match skipSpace cs with
    | 'n' :: 'u' :: 'l' :: 'l' :: rest => some (null, rest)
    | 't' :: 'r' :: 'u' :: 'e' :: rest => some (bool true, rest)
    | 'f' :: 'a' :: 'l' :: 's' :: 'e' :: rest => some (bool false, rest)
    | '"' :: rest => (readString none [] rest).map fun (s, rest) => (string s, rest)
    | '[' :: rest =>
      match depth with
      | 0 => none
      | depth + 1 =>
        match skipSpace rest with
        | ']' :: more => some (array [], more)
        | _ => readItems (readValue bound depth) bound [] rest
    | '{' :: rest =>
      match depth with
      | 0 => none
      | depth + 1 =>
        match skipSpace rest with
        | '}' :: more => some (object [], more)
        | _ => readFields (readValue bound depth) bound [] rest
    | rest => readNumber rest

/-- The value that a text holds; none if it holds none or more than one. -/
def parse? (text : String) : Option Json := do
  let cs := text.toList
  let (value, rest) ← readValue (cs.length + 1) maxNesting cs
  match skipSpace rest with
  | [] => return value
  | _ :: _ => none

end BindingRepair.Json
