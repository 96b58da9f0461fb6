/-
# Name-based identifiers

A universally unique identifier of version 5 follows from a name space and a name, so that equal
names have equal identifiers.
-/

import BindingRepair.Digest.Sha1

namespace BindingRepair.Digest

/-- The sixteen bytes of an identifier, in groups of hexadecimal digits with hyphens between. -/
def uuidText (bytes : List UInt8) : String :=
  let group (start count : Nat) : String := hex ((bytes.drop start).take count)
  "-".intercalate [group 0 4, group 4 2, group 6 2, group 8 2, group 10 6]

/-- The identifier of version 5 of a name. -/
def uuidOfName (space : List UInt8) (name : String) : String :=
  let digest := (Sha1.digest (space ++ name.toUTF8.toList)).take 16
  uuidText <| digest.zipIdx.map fun (b, i) =>
    if i = 6 then (b &&& 0x0f) ||| 0x50 else if i = 8 then (b &&& 0x3f) ||| 0x80 else b

end BindingRepair.Digest
