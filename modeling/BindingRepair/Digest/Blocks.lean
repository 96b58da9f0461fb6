/-
# Message blocks

The common frame of the digests of this folder: a message of bytes is padded with its length and cut
into blocks of sixteen words of 32 bits, most significant byte first.
-/

import BindingRepair.Text.Digits

namespace BindingRepair.Digest

/-- The `count` lowest bytes of a number, most significant first. -/
def bigEndian (count n : Nat) : List UInt8 :=
  (List.range count).reverse.map fun i => UInt8.ofNat (n >>> (8 * i))

/-- A message with a one bit, zeros up to a whole number of blocks and its length in bits behind it. -/
def padded (message : List UInt8) : List UInt8 :=
  let length := message.length
  message ++ 0x80 :: List.replicate ((119 - length % 64) % 64) 0 ++ bigEndian 8 (8 * length)

/-- The words that four bytes each make up. -/
def words : List UInt8 → List UInt32
  | a :: b :: c :: d :: rest =>
    (a.toUInt32 <<< 24 ||| b.toUInt32 <<< 16 ||| c.toUInt32 <<< 8 ||| d.toUInt32) :: words rest
  | _ => []

/-- Groups of sixteen words. -/
def blocks (ws : List UInt32) : List (List UInt32) :=
  if ws.length < 16 then []
  else ws.take 16 :: blocks (ws.drop 16)
termination_by ws.length
decreasing_by simp only [List.length_drop]; omega

/-- The blocks of a message. -/
def messageBlocks (message : List UInt8) : List (List UInt32) :=
  blocks (words (padded message))

/-- The bytes of a word. -/
def wordBytes (w : UInt32) : List UInt8 :=
  bigEndian 4 w.toNat

/-- A word with its bits moved to the left, around the end. -/
def rotateLeft (w : UInt32) (n : Nat) : UInt32 :=
  w <<< UInt32.ofNat n ||| w >>> UInt32.ofNat (32 - n)

/-- A word with its bits moved to the right, around the end. -/
def rotateRight (w : UInt32) (n : Nat) : UInt32 :=
  rotateLeft w (32 - n)

/-- Sixteen words, extended by `count` more that each follow from the words before by `next`. -/
def extended (next : Array UInt32 → UInt32) (count : Nat) (block : List UInt32) : Array UInt32 :=
  (List.range count).foldl (fun ws _ => ws.push (next ws)) block.toArray

/-- The word `n` places before the end. -/
def fromEnd (ws : Array UInt32) (n : Nat) : UInt32 :=
  ws.getD (ws.size - n) 0

/-- The two hexadecimal digits of a byte, in lower case. -/
def hexByte (b : UInt8) : List Char :=
  [Text.hexDigit (b.toNat / 16), Text.hexDigit (b.toNat % 16)]

/-- Bytes in hexadecimal digits. -/
def hex (bytes : List UInt8) : String :=
  String.ofList (bytes.flatMap hexByte)

end BindingRepair.Digest
