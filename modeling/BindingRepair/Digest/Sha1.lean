/-
# SHA-1

The digest of 160 bits that name-based identifiers are made from.
-/

import BindingRepair.Digest.Blocks

namespace BindingRepair.Digest.Sha1

structure State where
  a : UInt32
  b : UInt32
  c : UInt32
  d : UInt32
  e : UInt32

def initial : State :=
  ⟨0x67452301, 0xefcdab89, 0x98badcfe, 0x10325476, 0xc3d2e1f0⟩

/-- The constant and the mixed words of a round. -/
def mix (round : Nat) (s : State) : UInt32 × UInt32 :=
  if round < 20 then (0x5a827999, (s.b &&& s.c) ||| (~~~s.b &&& s.d))
  else if round < 40 then (0x6ed9eba1, s.b ^^^ s.c ^^^ s.d)
  else if round < 60 then (0x8f1bbcdc, (s.b &&& s.c) ||| (s.b &&& s.d) ||| (s.c &&& s.d))
  else (0xca62c1d6, s.b ^^^ s.c ^^^ s.d)

def roundStep (s : State) (round : Nat) (w : UInt32) : State :=
  let (k, f) := mix round s
  ⟨rotateLeft s.a 5 + f + s.e + k + w, s.a, rotateLeft s.b 30, s.c, s.d⟩

/-- The eighty words of a block. -/
def schedule (block : List UInt32) : Array UInt32 :=
  extended (fun ws => rotateLeft
    (fromEnd ws 3 ^^^ fromEnd ws 8 ^^^ fromEnd ws 14 ^^^ fromEnd ws 16) 1) 64 block

def compress (s : State) (block : List UInt32) : State :=
  let t := (schedule block).toList.zipIdx.foldl (fun t (w, round) => roundStep t round w) s
  ⟨s.a + t.a, s.b + t.b, s.c + t.c, s.d + t.d, s.e + t.e⟩

/-- The twenty bytes of the digest. -/
def digest (message : List UInt8) : List UInt8 :=
  let s := (messageBlocks message).foldl compress initial
  [s.a, s.b, s.c, s.d, s.e].flatMap wordBytes

end BindingRepair.Digest.Sha1
