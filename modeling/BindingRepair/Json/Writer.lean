/-
# Writing JSON

Values are written in one line without spaces, or indented by two spaces with one item a line. A
character is escaped if it must be.
-/

import BindingRepair.Json.Basic
import BindingRepair.Text.Digits

namespace BindingRepair.Json

open Text

/-- How a character is written within a string. -/
def escapeChar (c : Char) : List Char :=
  match c with
  | '"' => ['\\', '"']
  | '\\' => ['\\', '\\']
  | '\x08' => ['\\', 'b']
  | '\x0c' => ['\\', 'f']
  | '\n' => ['\\', 'n']
  | '\r' => ['\\', 'r']
  | '\t' => ['\\', 't']
  | c =>
    if c.val < 0x20 then ['\\', 'u', '0', '0', hexDigit (c.toNat / 16), hexDigit (c.toNat % 16)]
    else [c]

/-- A string between quotes. -/
def quote (s : String) : String :=
  String.ofList ('"' :: s.toList.flatMap escapeChar ++ ['"'])

mutual

/-- The value in one line. -/
def compact : Json → String
  | null => "null"
  | bool b => if b then "true" else "false"
  | integer n => toString n
  | real literal => literal
  | string s => quote s
  | array items => "[" ++ ",".intercalate (compactItems items) ++ "]"
  | object fields => "\x7b" ++ ",".intercalate (compactFields fields) ++ "\x7d"

def compactItems : List Json → List String
  | [] => []
  | item :: items => compact item :: compactItems items

def compactFields : List (String × Json) → List String
  | [] => []
  | (name, value) :: fields => (quote name ++ ":" ++ compact value) :: compactFields fields

end

/-- Items between brackets, each on a line of its own; without items the brackets stand alone. -/
def block (opening closing margin : String) (items : List String) : String :=
  if items.isEmpty then opening ++ closing
  else opening ++ "\n" ++ ",\n".intercalate (items.map (margin ++ "  " ++ ·)) ++ "\n" ++ margin ++
    closing

mutual

/-- The value over several lines; `margin` stands before each but the first. -/
def prettyFrom (margin : String) : Json → String
  | null => "null"
  | bool b => if b then "true" else "false"
  | integer n => toString n
  | real literal => literal
  | string s => quote s
  | array items => block "[" "]" margin (prettyItems (margin ++ "  ") items)
  | object fields => block "\x7b" "\x7d" margin (prettyFields (margin ++ "  ") fields)

def prettyItems (margin : String) : List Json → List String
  | [] => []
  | item :: items => prettyFrom margin item :: prettyItems margin items

def prettyFields (margin : String) : List (String × Json) → List String
  | [] => []
  | (name, value) :: fields =>
    (quote name ++ ": " ++ prettyFrom margin value) :: prettyFields margin fields

end

/-- The value over several lines. -/
def pretty (j : Json) : String :=
  prettyFrom "" j

end BindingRepair.Json
