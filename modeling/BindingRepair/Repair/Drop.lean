/-
# Dropped fixes

Why a fix cannot be carried out. A dropped fix leaves no trace and keeps no other from being carried
out.
-/

import BindingRepair.Diagnostic
import BindingRepair.Script.Edit

namespace BindingRepair

open Text Script

inductive DropReason
  /-- All names to be imported are bound in the module. -/
  | alreadyImported
  /-- Nothing is imported from the module yet. -/
  | noImport (module : String)
  /-- The module declares no component. -/
  | noComponent
  /-- The value of a setter would have this name. -/
  | notAnIdentifier (name : String)
  /-- A name is declared in the component. -/
  | alreadyDeclared
  /-- The name and all its numbered forms are taken. -/
  | noFreeName (name : String)
  /-- Value and setter would have the same name. -/
  | declaredTwice (name : String)
  | outsideFile (position : Position)
  /-- No binding of the name begins at the place. -/
  | noBinding (name : String) (position : Position)
  /-- The identifier at the place declares nothing. -/
  | notABinding (name : String) (position : Position)
  | exported (name : String)
  | referenced (name : String)
  /-- The tree refuses the edit. -/
  | refused (error : EditError)
deriving DecidableEq, Repr

/-- The reason in words. -/
def DropReason.message : DropReason → String
  | alreadyImported => "already imported or declared at module level"
  | noImport module => "no existing import from '" ++ module ++ "' to merge into"
  | noComponent => "no component body to declare in"
  | notAnIdentifier name => "'" ++ name ++ "' is not an identifier"
  | alreadyDeclared => "already declared in the component body"
  | noFreeName name => "no free name for '" ++ name ++ "'"
  | declaredTwice name => "'" ++ name ++ "' would be declared twice"
  | outsideFile position => "location " ++ position.render ++ " is outside the file"
  | noBinding name position => "no binding named '" ++ name ++ "' at " ++ position.render
  | notABinding name position => "'" ++ name ++ "' at " ++ position.render ++ " is not a binding"
  | exported name => "'" ++ name ++ "' is exported"
  | referenced name => "'" ++ name ++ "' is referenced"
  | refused error => error.message

end BindingRepair
