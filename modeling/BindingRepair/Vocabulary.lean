/-
# Vocabulary

What a code base calls its things: which modules export which names, how state is declared, and which
names the runtime provides.
-/

import BindingRepair.Identifier
import BindingRepair.Json.Decode
import BindingRepair.Script.Globals
import BindingRepair.SortedTable

namespace BindingRepair

/-- The names that the state module exports by default. -/
def stateModuleNames : List String :=
  ["useState", "useEffect", "useLayoutEffect", "useMemo", "useCallback", "useRef", "useContext",
    "useReducer", "useId", "useTransition", "useDeferredValue", "Fragment"]

/-- The modules of names, with some entries in place of those that the table has. -/
def withCapabilities (table : SortedTable String String) (entries : List (String × String)) :
    SortedTable String String :=
  entries.foldl (fun t (name, module) => t.insert SortedTable.nameBefore name module) table

/-- The modules of the names that are known by default. -/
def defaultCapabilities : SortedTable String String :=
  withCapabilities []
    (stateModuleNames.map (·, "react") ++ [("toast", "sonner"), ("cn", "@/lib/utils")])

structure Vocabulary where
  /-- Names and the modules that export them. -/
  capabilities : SortedTable String String := defaultCapabilities
  /-- The module of the state primitive. -/
  stateModule : String := "react"
  /-- The function whose call makes a value and its setter. -/
  statePrimitive : String := "useState"
  /-- What the names of setters begin with. -/
  setterPrefix : String := "set"
  /-- The module of names that begin with an upper-case letter. -/
  iconModule : String := "lucide-react"
  /-- What the names of bindings that are unused on purpose begin with. -/
  reservedPrefix : String := "_"
  /-- Names that the runtime provides besides those of every runtime. -/
  globals : NameSet := []
deriving DecidableEq, Repr

namespace Vocabulary

/-- The module that is known to export a name. -/
def moduleOf? (v : Vocabulary) (name : String) : Option String :=
  v.capabilities.lookup name

/-- Whether the runtime provides a name. -/
def isGlobal (v : Vocabulary) (name : String) : Bool :=
  Script.isKnownGlobal name || v.globals.contains name

/-- The value whose setter has the given name: what follows the prefix of setters, with its first
letter in lower case. -/
def valueOfSetter? (v : Vocabulary) (name : String) : Option String :=
  match v.setterPrefix.toList.isPrefixOf? name.toList with
  | none | some [] => none
  | some rest => some (lowerFirst (String.ofList rest))

/-- Whether a binding with the given name may go unused. -/
def mayGoUnused (v : Vocabulary) (name : String) : Bool :=
  (!v.reservedPrefix.isEmpty && v.reservedPrefix.toList.isPrefixOf name.toList) || startsUpper name

def toJson (v : Vocabulary) : Json :=
  .object [
    ("capabilities", .object (v.capabilities.map fun (name, module) => (name, .string module))),
    ("state_module", .string v.stateModule),
    ("state_primitive", .string v.statePrimitive),
    ("setter_prefix", .string v.setterPrefix),
    ("icon_module", .string v.iconModule),
    ("reserved_prefix", .string v.reservedPrefix),
    ("globals", .strings v.globals)]

/-- The modules of names that an object gives. -/
def capabilitiesOfJson? (j : Json) : Option (SortedTable String String) := do
  let entries ← (← j.object?).mapM fun (name, module) => module.string?.map (name, ·)
  return withCapabilities [] entries

/-- The vocabulary that an object gives; fields that it lacks have their default values. -/
def ofJson? (j : Json) : Option Vocabulary := do
  let j ← j.document? ["capabilities", "state_module", "state_primitive", "setter_prefix",
    "icon_module", "reserved_prefix", "globals"]
  let usual : Vocabulary := {}
  return {
    capabilities := ← j.withDefault "capabilities" usual.capabilities capabilitiesOfJson?
    stateModule := ← j.withDefault "state_module" usual.stateModule Json.string?
    statePrimitive := ← j.withDefault "state_primitive" usual.statePrimitive Json.string?
    setterPrefix := ← j.withDefault "setter_prefix" usual.setterPrefix Json.string?
    iconModule := ← j.withDefault "icon_module" usual.iconModule Json.string?
    reservedPrefix := ← j.withDefault "reserved_prefix" usual.reservedPrefix Json.string?
    globals := ← j.withDefault "globals" usual.globals fun g => g.strings?.map NameSet.ofNames }

end Vocabulary

end BindingRepair
