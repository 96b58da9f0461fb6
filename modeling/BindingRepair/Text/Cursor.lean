/-
# Cursors into a text

A text is a list of characters, and a place in it is a cursor: the byte offset of the place in the
UTF-8 encoding together with the characters that follow. All reading is done by moving a cursor over
whole characters, so an offset always lies between two characters and never past the end.
-/

namespace BindingRepair.Text

/-- Length in bytes of the UTF-8 encoding. -/
def byteLength : List Char → Nat
  | [] => 0
  | c :: cs => c.utf8Size + byteLength cs

/-- Number of UTF-16 code units of a character. -/
def utf16Size (c : Char) : Nat :=
  if c.val < 0x10000 then 1 else 2

/-- Length in UTF-16 code units. -/
def utf16Length : List Char → Nat
  | [] => 0
  | c :: cs => utf16Size c + utf16Length cs

/-- The characters left after the first `n` bytes. -/
def dropBytes (n : Nat) : List Char → List Char
  | [] => []
  | c :: cs => if n = 0 then c :: cs else dropBytes (n - c.utf8Size) cs

/-- The characters within the first `n` bytes. -/
def takeBytes (n : Nat) : List Char → List Char
  | [] => []
  | c :: cs => if n = 0 then [] else c :: takeBytes (n - c.utf8Size) cs

/-- The characters between two byte offsets. -/
def slice (text : List Char) (start stop : Nat) : List Char :=
  takeBytes (stop - start) (dropBytes start text)

/-- A place in a text. -/
structure Cursor where
  /-- Bytes before the place. -/
  offset : Nat
  /-- Characters from the place on. -/
  rest : List Char
deriving Repr

namespace Cursor

/-- The place before the first character. -/
def start (text : List Char) : Cursor :=
  ⟨0, text⟩

/-- The character at the cursor. -/
def peek? (c : Cursor) : Option Char :=
  c.rest.head?

/-- The character `n` places after the cursor. -/
def peekAt? (c : Cursor) (n : Nat) : Option Char :=
  c.rest[n]?

/-- Moves over one character; at the end nothing moves. -/
def next (c : Cursor) : Cursor :=
  match c.rest with
  | [] => c
  | x :: xs => ⟨c.offset + x.utf8Size, xs⟩

/-- Moves over `n` characters, or to the end if there are fewer. -/
def skip : Nat → Cursor → Cursor
  | 0, c => c
  | n + 1, c => skip n c.next

/-- Moves over the characters that satisfy `p`, up to the first that does not. -/
def skipWhile (p : Char → Bool) (c : Cursor) : Cursor :=
  go c.offset c.rest
where
  go (offset : Nat) : List Char → Cursor
    | [] => ⟨offset, []⟩
    | x :: xs => if p x then go (offset + x.utf8Size) xs else ⟨offset, x :: xs⟩

/-- Whether the text from the cursor on begins with `word`. -/
def startsWith (c : Cursor) (word : String) : Bool :=
  word.toList.isPrefixOf c.rest

/-- The place behind the next occurrence of the characters `a` and `b` in a row, if there is one. -/
def after? (a b : Char) (c : Cursor) : Option Cursor :=
  go c.offset c.rest
where
  go (offset : Nat) : List Char → Option Cursor
    | [] => none
    | [_] => none
    | x :: y :: rest =>
      if x == a && y == b then some ⟨offset + x.utf8Size + y.utf8Size, rest⟩
      else go (offset + x.utf8Size) (y :: rest)

/-- The characters between a cursor and a later one. -/
def charsTo (c later : Cursor) : List Char :=
  takeBytes (later.offset - c.offset) c.rest

/-- The text between a cursor and a later one. -/
def textTo (c later : Cursor) : String :=
  String.ofList (c.charsTo later)

end Cursor

end BindingRepair.Text
