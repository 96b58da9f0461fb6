/-
# Fresh names

Names for new and renamed bindings. A name is free if nothing it could be confused with has it; if the
wanted name is taken, a number is put behind it.
-/

import BindingRepair.Script.Globals
import BindingRepair.Script.Token
import BindingRepair.Script.Tree
import BindingRepair.SortedTable

namespace BindingRepair.Script

/-- What a name is wanted for. -/
inductive NameUse
  /-- A new declaration, which references without a declaration are meant to find. -/
  | declaration
  /-- A binding that nothing refers to, and that nothing is to refer to. -/
  | rename
deriving DecidableEq, Repr

/-- Whether a name must not be declared at all. -/
def isTaken (globals : NameSet) (name : String) : Bool :=
  isReservedWord name || isKnownGlobal name || globals.contains name

namespace Tree

variable (t : Tree)

/-- Whether a name can be bound in a scope. A renamed binding also keeps away from the bindings in
inner scopes and from the references that it would capture. -/
def isFree (s : ScopeId) (use : NameUse) (globals : NameSet) (name : String) : Bool :=
  !isTaken globals name && !t.isVisible s name &&
    match use with
    | .declaration => true
    | .rename => !t.scopes.bindsBelow s name && !t.wouldCapture s name

end Tree

/-- A name with a number behind it. -/
def numbered (name : String) (n : Nat) : String :=
  name ++ "_" ++ toString n

/-- The first free name among `attempts` names with numbers from `n` on. -/
def firstNumbered? (free : String → Bool) (name : String) (n : Nat) : (attempts : Nat) → Option String
  | 0 => none
  | attempts + 1 =>
    if free (numbered name n) then some (numbered name n)
    else firstNumbered? free name (n + 1) attempts

/-- The name itself if it is free, or else the first free one with a number from 1 to `attempts`. -/
def Tree.freshName? (t : Tree) (s : ScopeId) (use : NameUse) (globals : NameSet) (attempts : Nat)
    (name : String) : Option String :=
  if t.isFree s use globals name then some name
  else firstNumbered? (t.isFree s use globals) name 1 attempts

end BindingRepair.Script
