/-
# Patches

The difference between two versions of a file, as a patch that version control systems read.
-/

import BindingRepair.Diff.Hunk

namespace BindingRepair.Diff

/-- The lines of a text, each with its end. `line` holds what is read of the first, last character
first. -/
def splitLines (line : List Char) : List Char → List String
  | [] => if line.isEmpty then [] else [String.ofList line.reverse]
  | '\n' :: cs => String.ofList ('\n' :: line).reverse :: splitLines [] cs
  | c :: cs => splitLines (c :: line) cs

def Texts.ofStrings (before after : String) : Texts :=
  ⟨(splitLines [] before.toList).toArray, (splitLines [] after.toList).toArray⟩

/-- The hunks of two texts. -/
def hunksOf (texts : Texts) : List Hunk :=
  hunks texts (changes none 0 0 (compact texts (align texts)))

/-- The patch from one version of a file to another; empty if they are equal. -/
def patch (path before after : String) : String :=
  if before = after then ""
  else
    "diff --git a/" ++ path ++ " b/" ++ path ++ "\n--- a/" ++ path ++ "\n+++ b/" ++ path ++ "\n" ++
      String.join ((hunksOf (Texts.ofStrings before after)).map Hunk.render)

end BindingRepair.Diff
