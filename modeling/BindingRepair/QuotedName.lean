/-
# Names in messages

Analyzers put the name that a message is about between quotes. Nothing but that name is taken from a
message, so its wording does not matter.
-/

import BindingRepair.Identifier
import BindingRepair.Unicode.Blank

namespace BindingRepair

/-- The quotes that names stand in, each with the quote that closes it. -/
def quotePairs : List (Char × Char) :=
  [('\'', '\''), ('"', '"'), ('\x60', '\x60'), ('\u2018', '\u2019'), ('\u201c', '\u201d')]

/-- The quote that closes a run that a character opens. -/
def closingQuote? (c : Char) : Option Char :=
  quotePairs.lookup c

/-- The texts between quotes, in order. Within a run, `closing` is the quote that ends it and `acc`
holds the characters read so far, last first. A run without an end counts for nothing. -/
def quotedRuns : Option Char → List Char → List Char → List (List Char)
  | _, _, [] => []
  | none, _, c :: cs => quotedRuns (closingQuote? c) [] cs
  | some closing, acc, c :: cs =>
    if c = closing then acc.reverse :: quotedRuns none [] cs
    else quotedRuns (some closing) (c :: acc) cs

/-- The name that a message is about: the first identifier between quotes or else, without the
blanks around it, the first text between quotes that is not blank. -/
def quotedName? (message : String) : Option String :=
  let runs := (quotedRuns none [] message.toList).map String.ofList
  runs.find? isIdentifier <|> (runs.map Unicode.trim).find? (!·.isEmpty)

end BindingRepair
