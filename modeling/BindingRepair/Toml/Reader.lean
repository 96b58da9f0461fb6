/-
# Reading TOML

The grammar is that of TOML 1.1. A byte order mark may come first. How deep values nest and how many
parts a key has is limited.
-/

import BindingRepair.Toml.Document
import BindingRepair.Toml.Word

namespace BindingRepair.Toml

open Text

/-! ### Characters -/

def isSpace (c : Char) : Bool :=
  c == ' ' || c == '\t'

def skipSpace (cs : List Char) : List Char :=
  cs.dropWhile isSpace

/-- Whether a character may stand in texts as it is; control characters other than tabs may not. -/
def isPlain (c : Char) : Bool :=
  c == '\t' || (0x20 ≤ c.val && c.val ≠ 0x7f)

def isBareKeyChar (c : Char) : Bool :=
  c.isAlphanum || c == '_' || c == '-'

/-- What follows a line end, if one comes next. -/
def newline? : List Char → Option (List Char)
  | '\n' :: cs | '\r' :: '\n' :: cs => some cs
  | _ => none

/-- What follows a comment, if one comes next. -/
def skipComment : List Char → List Char
  | '#' :: cs => cs.dropWhile isPlain
  | cs => cs

/-- Skips spaces, comments and line ends. -/
def skipLines : (bound : Nat) → List Char → List Char
  | 0, cs => cs
  | bound + 1, cs =>
    match newline? (skipComment (skipSpace cs)) with
    | some rest => skipLines bound rest
    | none => skipSpace cs

/-! ### Strings -/

/-- The character of an escape whose backslash is read, and what follows it. -/
def readEscape : List Char → Option (Char × List Char)
  | 'b' :: cs => some ('\x08', cs)
  | 't' :: cs => some ('\t', cs)
  | 'n' :: cs => some ('\n', cs)
  | 'f' :: cs => some ('\x0c', cs)
  | 'r' :: cs => some ('\r', cs)
  | 'e' :: cs => some ('\x1b', cs)
  | '"' :: cs => some ('"', cs)
  | '\\' :: cs => some ('\\', cs)
  | 'x' :: a :: b :: cs => do
    return (← scalar? (← hexNumber? [a, b]), cs)
  | 'u' :: a :: b :: c :: d :: cs => do
    return (← scalar? (← hexNumber? [a, b, c, d]), cs)
  | 'U' :: a :: b :: c :: d :: e :: f :: g :: h :: cs => do
    return (← scalar? (← hexNumber? [a, b, c, d, e, f, g, h]), cs)
  | _ => none

/-- The characters of a string up to its closing quote; `bound` limits how many rounds are made. -/
def readBasic : (bound : Nat) → List Char → List Char → Option (String × List Char)
  | 0, _, _ | _ + 1, _, [] => none
  | _ + 1, acc, '"' :: cs => some (String.ofList acc.reverse, cs)
  | bound + 1, acc, '\\' :: cs => do
    let (c, rest) ← readEscape cs
    readBasic bound (c :: acc) rest
  | bound + 1, acc, c :: cs => if isPlain c then readBasic bound (c :: acc) cs else none

/-- The characters of a string without escapes. -/
def readLiteral (cs : List Char) : Option (String × List Char) :=
  match cs.span fun c => isPlain c && c != '\'' with
  | (inside, '\'' :: rest) => some (String.ofList inside, rest)
  | _ => none

/-- What follows the spaces and line ends behind a backslash that ends its line. -/
def skipFold (bound : Nat) (cs : List Char) : Option (List Char) :=
  (newline? (skipSpace cs)).map (skip bound)
where
  skip : Nat → List Char → List Char
    | 0, cs => cs
    | bound + 1, cs =>
      match newline? (skipSpace cs) with
      | some rest => skip bound rest
      | none => skipSpace cs

/-- The end of a string of several lines between three quotes of one kind: up to two more quotes
belong to the string. -/
def closeLines (quote : Char) (acc : List Char) (cs : List Char) :
    Option (String × List Char) :=
  match cs.span (· == quote) with
  | (quotes, _) =>
    if quotes.length < 3 then none
    else
      let more := min (quotes.length - 3) 2
      some (String.ofList (quotes.take more ++ acc).reverse, cs.drop (more + 3))

/-- The characters of a string of several lines, with escapes if the quotes are double. Line ends are
kept as they are. -/
def readLines (quote : Char) : (bound : Nat) → List Char → List Char → Option (String × List Char)
  | 0, _, _ | _ + 1, _, [] => none
  | bound + 1, acc, c :: cs =>
    match closeLines quote acc (c :: cs) with
    | some result => some result
    | none =>
      match c :: cs with
      | '\n' :: rest => readLines quote bound ('\n' :: acc) rest
      | '\r' :: '\n' :: rest => readLines quote bound ('\n' :: '\r' :: acc) rest
      | _ =>
        if c == '\\' && quote == '"' then
          match skipFold bound cs with
          | some rest => readLines quote bound acc rest
          | none => do
            let (c, rest) ← readEscape cs
            readLines quote bound (c :: acc) rest
        else if isPlain c then readLines quote bound (c :: acc) cs
        else none

/-- A string of several lines whose opening quotes are read. A line end right behind them does not
count. -/
def readLinesFrom (quote : Char) (bound : Nat) (cs : List Char) : Option (String × List Char) :=
  readLines quote bound [] ((newline? cs).getD cs)

/-! ### Keys -/

def readKeyPart (bound : Nat) : List Char → Option (String × List Char)
  | '"' :: cs => readBasic bound [] cs
  | '\'' :: cs => readLiteral cs
  | cs =>
    match cs.span isBareKeyChar with
    | ([], _) => none
    | (name, rest) => some (String.ofList name, rest)

/-- The parts of a key, with spaces around its dots; `bound` limits their number. -/
def readParts : (bound : Nat) → List Char → Option (List String × List Char)
  | 0, _ => none
  | bound + 1, cs => do
    let cs := skipSpace cs
    let (part, rest) ← readKeyPart (cs.length + 1) cs
    match skipSpace rest with
    | '.' :: more =>
      let (parts, rest) ← readParts bound more
      return (part :: parts, rest)
    | rest => return ([part], rest)

/-- The largest number of parts of a key. -/
def maxParts : Nat := 80

def readKey (cs : List Char) : Option (List String × List Char) :=
  readParts maxParts cs

/-! ### Values -/

/-- The items of an array whose opening bracket is read. -/
def readArray (value : List Char → Option (Value × List Char)) :
    (bound : Nat) → List Value → List Char → Option (Value × List Char)
  | 0, _, _ => none
  | bound + 1, acc, cs =>
    match skipLines (bound + 1) cs with
    | ']' :: rest => some (.array acc.reverse, rest)
    | cs => do
      let (item, rest) ← value cs
      match skipLines (bound + 1) rest with
      | ',' :: more => readArray value bound (item :: acc) more
      | ']' :: more => return (.array (item :: acc).reverse, more)
      | _ => none

/-- A key and its value. `skip` skips what may stand around the equals sign. -/
def readEntry (value : List Char → Option (Value × List Char)) (skip : List Char → List Char)
    (cs : List Char) : Option ((List String × String × Value) × List Char) := do
  let (parts, rest) ← readKey cs
  let '=' :: rest := skip rest | none
  let (v, rest) ← value (skip rest)
  return ((parts.dropLast, ← parts.getLast?, v), rest)

/-- The entries of a table whose opening brace is read. -/
def readTable (value : List Char → Option (Value × List Char)) :
    (bound : Nat) → Items → List Char → Option (Value × List Char)
  | 0, _, _ => none
  | bound + 1, items, cs =>
    match skipLines (bound + 1) cs with
    | '\x7d' :: rest => some (.table (entriesOf items), rest)
    | cs => do
      let ((path, key, v), rest) ← readEntry value (skipLines (bound + 1)) cs
      let items ← items.addEntry path key v .header
      match skipLines (bound + 1) rest with
      | ',' :: more => readTable value bound items more
      | '\x7d' :: more => return (.table (entriesOf items), more)
      | _ => none

/-- A value that is neither an array nor a table. -/
def readScalar (bound : Nat) : List Char → Option (Value × List Char)
  | '"' :: '"' :: '"' :: cs =>
    (readLinesFrom '"' bound cs).map fun (s, rest) => (.string s, rest)
  | '\'' :: '\'' :: '\'' :: cs =>
    (readLinesFrom '\'' bound cs).map fun (s, rest) => (.string s, rest)
  | '"' :: cs => (readBasic bound [] cs).map fun (s, rest) => (.string s, rest)
  | '\'' :: cs => (readLiteral cs).map fun (s, rest) => (.string s, rest)
  | cs =>
    let (word, rest) := Word.read cs
    (Word.value? word).map fun v => (v, rest)

/-- A value in which arrays and tables nest at most `depth` deep. -/
def readValue (bound : Nat) : (depth : Nat) → List Char → Option (Value × List Char)
  | 0, '[' :: _ | 0, '\x7b' :: _ => none
  | depth + 1, '[' :: cs => readArray (readValue bound depth) bound [] cs
  | depth + 1, '\x7b' :: cs => readTable (readValue bound depth) bound [] cs
  | _, cs => readScalar bound cs

/-- How deep arrays and tables may nest. -/
def maxDepth : Nat := 80

/-! ### Documents -/

/-- A statement. -/
def readStatement (bound : Nat) : List Char → Option (Statement × List Char)
  | '[' :: '[' :: cs => do
    let (path, rest) ← readKey cs
    let ']' :: ']' :: rest := rest | none
    return (.arrayHeader path, rest)
  | '[' :: cs => do
    let (path, rest) ← readKey cs
    let ']' :: rest := rest | none
    return (.header path, rest)
  | cs => do
    let ((path, key, v), rest) ← readEntry (readValue bound maxDepth) skipSpace cs
    return (.entry path key v, rest)

/-- The statements of a document, each on a line of its own; there are at most `bound` of them. -/
def readStatements : (bound : Nat) → List Statement → List Char → Option (List Statement)
  | 0, _, _ => none
  | bound + 1, acc, cs =>
    match skipLines (bound + 1) cs with
    | [] => some acc.reverse
    | '#' :: cs => if (skipComment ('#' :: cs)).isEmpty then some acc.reverse else none
    | cs => do
      let (statement, rest) ← readStatement (bound + 1) cs
      match skipComment (skipSpace rest) with
      | [] => return (statement :: acc).reverse
      | rest => readStatements bound (statement :: acc) (← newline? rest)

/-- The table that a text describes; none if it describes none. -/
def parse? (text : String) : Option Entries := do
  let cs := match text.toList with
    | '\ufeff' :: cs => cs
    | cs => cs
  ofStatements? (← readStatements (cs.length + 1) [] cs)

end BindingRepair.Toml
