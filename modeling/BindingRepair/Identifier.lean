/-
# Identifiers

The names that a program may give to its bindings: which characters they are made of, and the changes
of letter case that names of setters and components are recognized by.
-/

import BindingRepair.Unicode.Numeric
import BindingRepair.Unicode.Uppercase
import BindingRepair.Unicode.Lowercase

namespace BindingRepair

open Unicode

/-- The characters that an identifier begins with. -/
def isIdentifierStart (c : Char) : Bool :=
  c == '_' || c == '$' || isAlphabetic c

/-- The characters of an identifier behind its first. -/
def isIdentifierPart (c : Char) : Bool :=
  c == '_' || c == '$' || c == '\u200c' || c == '\u200d' || isAlphanumeric c

/-- Whether a name is an identifier; reserved words count as well. -/
def isIdentifier (name : String) : Bool :=
  match name.toList with
  | [] => false
  | c :: cs => isIdentifierStart c && cs.all isIdentifierPart

/-- Whether a name begins with an upper-case letter. -/
def startsUpper (name : String) : Bool :=
  name.toList.head?.any isUppercase

/-- A name with its first character in lower case. -/
def lowerFirst (name : String) : String :=
  match name.toList with
  | [] => ""
  | c :: cs => String.ofList (toLowercase c ++ cs)

/-- An identifier may continue with any character that it may begin with. -/
theorem isIdentifierPart_of_isIdentifierStart {c : Char} (h : isIdentifierStart c = true) :
    isIdentifierPart c = true := by
  simp only [isIdentifierStart, isIdentifierPart, isAlphanumeric, Bool.or_eq_true] at h ⊢
  rcases h with (h | h) | h <;> simp [h]

theorem isIdentifier_iff {name : String} : isIdentifier name = true ↔
    ∃ c cs, name.toList = c :: cs ∧ isIdentifierStart c = true ∧ ∀ d ∈ cs, isIdentifierPart d = true := by
  unfold isIdentifier
  cases name.toList with
  | nil => exact ⟨nofun, nofun⟩
  | cons c cs =>
    dsimp only
    rw [Bool.and_eq_true, List.all_eq_true]
    constructor
    · exact fun is => ⟨c, cs, rfl, is⟩
    · rintro ⟨_, _, parts, is⟩
      cases parts
      exact is

theorem isIdentifierPart_of_mem {name : String} (identifier : isIdentifier name = true) :
    ∀ c ∈ name.toList, isIdentifierPart c = true := by
  obtain ⟨c, cs, chars, starts, parts⟩ := isIdentifier_iff.mp identifier
  rw [chars]
  exact List.forall_mem_cons.mpr ⟨isIdentifierPart_of_isIdentifierStart starts, parts⟩

theorem not_mem_toList_of_isIdentifier {name : String} (identifier : isIdentifier name = true) {c : Char}
    (other : isIdentifierPart c = false) : c ∉ name.toList := by
  intro here
  rw [isIdentifierPart_of_mem identifier c here] at other
  cases other

end BindingRepair
