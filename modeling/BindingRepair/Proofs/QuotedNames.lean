/-
# Names between quotes

A message is taken apart from its beginning: a text in which no quote opens, then a run up to the first quote that
closes it, and so on. Other quotes in a run count for nothing. So the name that a message is about is the first run
that is an identifier, whatever the words around it are, and no name is made up: each stands between quotes.
-/

import BindingRepair.QuotedName
import Mathlib.Data.List.Infix

namespace BindingRepair

/-! ### Messages as passages -/

/-- A text between the quotes of a pair, closed by the first quote that may close it. -/
structure QuotedRun where
  opening : Char
  closing : Char
  content : String
  isPair : (opening, closing) ∈ quotePairs
  complete : closing ∉ content.toList

/-- The run with its quotes. -/
def QuotedRun.text (run : QuotedRun) : String :=
  String.singleton run.opening ++ run.content ++ String.singleton run.closing

/-- No quote opens in the text. -/
def IsUnquoted (text : String) : Prop :=
  ∀ pair ∈ quotePairs, pair.1 ∉ text.toList

instance (text : String) : Decidable (IsUnquoted text) :=
  inferInstanceAs (Decidable (∀ pair ∈ quotePairs, pair.1 ∉ text.toList))

/-- A run and the text without quotes in front of it. -/
structure Passage where
  gap : String
  run : QuotedRun
  unquoted : IsUnquoted gap

namespace Passage

def text (p : Passage) : String :=
  p.gap ++ p.run.text

/-- Passages one behind another. -/
def textOf : List Passage → String
  | [] => ""
  | p :: passages => p.text ++ textOf passages

theorem textOf_append (passages more : List Passage) : textOf (passages ++ more) = textOf passages ++ textOf more := by
  induction passages with
  | nil => simp [textOf]
  | cons p passages ih => simp [textOf, ih, String.append_assoc]

end Passage

/-! ### The quotes -/

theorem closingQuote?_eq_some_iff {opening closing : Char} :
    closingQuote? opening = some closing ↔ (opening, closing) ∈ quotePairs := by
  have known : ∀ pair ∈ quotePairs, closingQuote? pair.1 = some pair.2 := by decide
  constructor
  · intro found
    obtain ⟨before, behind, parts, -⟩ := List.lookup_eq_some_iff.mp found
    exact parts ▸ List.mem_append_right before List.mem_cons_self
  · exact known (opening, closing)

theorem closingQuote?_eq_none_iff {c : Char} : closingQuote? c = none ↔ ∀ pair ∈ quotePairs, pair.1 ≠ c := by
  rw [closingQuote?, List.lookup_eq_none_iff]
  exact forall₂_congr fun pair _ => bne_iff_ne.trans ne_comm

/-- No quote is in the name of an identifier. -/
theorem closing_not_mem_of_isIdentifier {opening closing : Char} (isPair : (opening, closing) ∈ quotePairs)
    {name : String} (identifier : isIdentifier name = true) : closing ∉ name.toList := by
  have outside : ∀ pair ∈ quotePairs, isIdentifierPart pair.2 = false := by decide +kernel
  exact not_mem_toList_of_isIdentifier identifier (outside _ isPair)

/-! ### Runs of passages -/

/-- No run begins in a text without quotes. -/
theorem quotedRuns_unquoted {gap : List Char} (unquoted : ∀ c ∈ gap, closingQuote? c = none) (rest : List Char) :
    quotedRuns none [] (gap ++ rest) = quotedRuns none [] rest := by
  induction gap with
  | nil => rfl
  | cons c gap ih =>
      obtain ⟨here, later⟩ := List.forall_mem_cons.mp unquoted
      rw [List.cons_append, quotedRuns, here, ih later]

/-- A run ends at the first quote that closes it. -/
theorem quotedRuns_content {closing : Char} {content : List Char} (complete : closing ∉ content)
    (acc rest : List Char) : quotedRuns (some closing) acc (content ++ closing :: rest) =
      (acc.reverse ++ content) :: quotedRuns none [] rest := by
  induction content generalizing acc with
  | nil => rw [List.nil_append, quotedRuns, if_pos rfl, List.append_nil]
  | cons c content ih =>
      obtain ⟨other, later⟩ := List.ne_and_not_mem_of_not_mem_cons complete
      rw [List.cons_append, quotedRuns, if_neg (Ne.symm other), ih later, List.reverse_cons, List.append_assoc,
        List.singleton_append]

/-- Without a quote that closes it there is no run. -/
theorem quotedRuns_of_not_mem {closing : Char} {cs : List Char} (unclosed : closing ∉ cs) (acc : List Char) :
    quotedRuns (some closing) acc cs = [] := by
  induction cs generalizing acc with
  | nil => rfl
  | cons c cs ih =>
      obtain ⟨other, later⟩ := List.ne_and_not_mem_of_not_mem_cons unclosed
      rw [quotedRuns, if_neg (Ne.symm other), ih later]

theorem quotedRuns_passage (p : Passage) (rest : List Char) :
    quotedRuns none [] (p.text.toList ++ rest) = p.run.content.toList :: quotedRuns none [] rest := by
  have unquoted : ∀ c ∈ p.gap.toList, closingQuote? c = none := by
    intro c here
    rw [closingQuote?_eq_none_iff]
    rintro pair isPair rfl
    exact p.unquoted pair isPair here
  simp only [Passage.text, QuotedRun.text, String.toList_append, String.toList_singleton, List.append_assoc,
    List.singleton_append]
  rw [quotedRuns_unquoted unquoted, List.cons_append, quotedRuns, closingQuote?_eq_some_iff.mpr p.run.isPair,
    quotedRuns_content p.run.complete]
  rfl

/-- The runs of passages are their contents. -/
theorem quotedRuns_textOf (passages : List Passage) (rest : List Char) :
    quotedRuns none [] ((Passage.textOf passages).toList ++ rest) =
      passages.map (·.run.content.toList) ++ quotedRuns none [] rest := by
  induction passages with
  | nil => rfl
  | cons p passages ih =>
      rw [Passage.textOf, String.toList_append, List.append_assoc, quotedRuns_passage, ih, List.map_cons,
        List.cons_append]

/-- Every text is passages and a rest that holds no run. -/
theorem exists_passages (text : List Char) : ∃ (passages : List Passage) (rest : List Char),
    text = (Passage.textOf passages).toList ++ rest ∧ quotedRuns none [] rest = [] := by
  induction length : text.length using Nat.strongRecOn generalizing text with
  | ind n ih =>
      cases text with
      | nil => exact ⟨[], [], rfl, rfl⟩
      | cons c cs =>
          cases opens : closingQuote? c with
          | none =>
              obtain ⟨passages, rest, rfl, noRun⟩ := ih cs.length (by simp [← length]) cs rfl
              cases passages with
              | nil => exact ⟨[], c :: rest, rfl, by rw [quotedRuns, opens, noRun]⟩
              | cons p passages =>
                  -- The character goes in front of the first gap.
                  have unquoted : IsUnquoted (String.singleton c ++ p.gap) := by
                    intro pair isPair
                    rw [String.toList_append, String.toList_singleton, List.singleton_append]
                    exact List.not_mem_cons_of_ne_of_not_mem (closingQuote?_eq_none_iff.mp opens pair isPair)
                      (p.unquoted pair isPair)
                  exact ⟨{ p with gap := String.singleton c ++ p.gap, unquoted } :: passages, rest,
                    by simp [Passage.textOf, Passage.text], noRun⟩
          | some closing =>
              by_cases closes : closing ∈ cs
              · obtain ⟨content, behind, rfl, complete⟩ := List.eq_append_cons_of_mem closes
                obtain ⟨passages, rest, rfl, noRun⟩ := ih behind.length (by simp [← length]; omega) behind rfl
                let run : QuotedRun := {
                  opening := c
                  closing
                  content := String.ofList content
                  isPair := closingQuote?_eq_some_iff.mp opens
                  complete := by rwa [String.toList_ofList] }
                refine ⟨{ gap := "", run, unquoted := fun _ _ => List.not_mem_nil } :: passages, rest, ?_, noRun⟩
                simp [Passage.textOf, Passage.text, QuotedRun.text, run]
              · exact ⟨[], c :: cs, rfl, by rw [quotedRuns, opens, quotedRuns_of_not_mem closes]⟩

/-! ### The name that is found -/

theorem infix_trim (s : String) : (Unicode.trim s).toList <:+: s.toList := by
  rw [Unicode.trim, String.toList_ofList, Unicode.trimBlanks]
  have front := (List.dropWhile_suffix Unicode.isBlank (l := s.toList)).isInfix
  have behind := List.dropWhile_suffix Unicode.isBlank (l := (s.toList.dropWhile Unicode.isBlank).reverse)
  rw [← List.reverse_prefix, List.reverse_reverse] at behind
  exact behind.isInfix.trans front

/-- A name that is found is the content of a run, as it is or without the blanks around it. -/
theorem exists_run_of_quotedName? {message name : String} (found : quotedName? message = some name) :
    name ≠ "" ∧ ∃ content ∈ quotedRuns none [] message.toList, name.toList <:+: content := by
  simp only [quotedName?, Option.orElse_eq_orElse, Option.orElse_eq_or] at found
  rcases Option.or_eq_some_iff.mp found with first | ⟨-, first⟩
  · have identifier := List.find?_some first
    obtain ⟨content, here, rfl⟩ := List.mem_map.mp (List.mem_of_find?_eq_some first)
    refine ⟨?_, content, here, by rw [String.toList_ofList]⟩
    rintro empty
    rw [empty] at identifier
    cases identifier
  · have filled := List.find?_some first
    obtain ⟨run, listed, rfl⟩ := List.mem_map.mp (List.mem_of_find?_eq_some first)
    obtain ⟨content, here, rfl⟩ := List.mem_map.mp listed
    refine ⟨fun empty => ?_, content, here, ?_⟩
    · rw [empty] at filled
      cases filled
    · have inside := infix_trim (String.ofList content)
      rwa [String.toList_ofList] at inside

/-- The first passage whose run is an identifier tells the name. -/
theorem quotedName?_textOf {earlier : List Passage} (others : ∀ p ∈ earlier, isIdentifier p.run.content = false)
    (last : Passage) (identifier : isIdentifier last.run.content = true) (rest : String) :
    quotedName? (Passage.textOf earlier ++ last.text ++ rest) = some last.run.content := by
  have chars : (Passage.textOf earlier ++ last.text ++ rest).toList =
      (Passage.textOf (earlier ++ [last])).toList ++ rest.toList := by
    simp [Passage.textOf_append, Passage.textOf]
  have none : (earlier.map fun p => p.run.content).find? isIdentifier = none := by
    rw [List.find?_eq_none, List.forall_mem_map]
    exact fun p here => Bool.eq_false_iff.mp (others p here)
  have runs : (quotedRuns .none [] (Passage.textOf earlier ++ last.text ++ rest).toList).map String.ofList =
      (earlier.map fun p => p.run.content) ++
        last.run.content :: (quotedRuns .none [] rest.toList).map String.ofList := by
    rw [chars, quotedRuns_textOf]
    simp
  rw [quotedName?, runs, List.find?_append, none, List.find?_cons_of_pos identifier]
  rfl

/-- The first run that is an identifier is the name, whatever runs that are none stand in front of it and whatever
follows. A name that is found is not empty, and it stands in a run of the message. -/
theorem quoted_names_are_found :
    (∀ (earlier : List Passage) (gap name rest : String) (opening closing : Char),
      (∀ p ∈ earlier, isIdentifier p.run.content = false) → IsUnquoted gap → (opening, closing) ∈ quotePairs →
        isIdentifier name = true →
          quotedName? (Passage.textOf earlier ++
            (gap ++ (String.singleton opening ++ name ++ String.singleton closing)) ++ rest) = some name) ∧
      ∀ message name : String, quotedName? message = some name → name ≠ "" ∧
        ∃ (earlier : List Passage) (last : Passage) (rest : String),
          message = Passage.textOf earlier ++ last.text ++ rest ∧ name.toList <:+: last.run.content.toList := by
  refine ⟨fun earlier gap name rest opening closing others unquoted isPair identifier => ?_,
    fun message name found => ?_⟩
  · have complete := closing_not_mem_of_isIdentifier isPair identifier
    exact quotedName?_textOf others ⟨gap, ⟨opening, closing, name, isPair, complete⟩, unquoted⟩ identifier rest
  · obtain ⟨filled, content, here, inside⟩ := exists_run_of_quotedName? found
    obtain ⟨passages, rest, parts, noRun⟩ := exists_passages message.toList
    rw [parts, quotedRuns_textOf, noRun, List.append_nil] at here
    obtain ⟨last, listed, rfl⟩ := List.mem_map.mp here
    obtain ⟨earlier, later, rfl⟩ := List.append_of_mem listed
    refine ⟨filled, earlier, last, Passage.textOf later ++ String.ofList rest, ?_, inside⟩
    rw [← String.toList_inj, parts]
    simp [Passage.textOf_append, Passage.textOf]

/-- A path between double quotes that holds single ones, and an ordinal between slanting ones. -/
def pathAndOrdinal : List Passage :=
  [{ gap := "In "
     run := {
       opening := '"'
       closing := '"'
       content := "src/'a b'.ts"
       isPair := by decide
       complete := by decide +kernel }
     unquoted := by decide +kernel },
    { gap := " the "
      run := {
        opening := '\u2018'
        closing := '\u2019'
        content := "2nd"
        isPair := by decide
        complete := by decide +kernel }
      unquoted := by decide +kernel }]

/-- The name stands behind two runs that are no identifiers and in front of a quote that nothing closes. -/
theorem name_behind_pathAndOrdinal :
    (∀ p ∈ pathAndOrdinal, isIdentifier p.run.content = false) ∧ IsUnquoted " use of " ∧
      ('\x60', '\x60') ∈ quotePairs ∧ isIdentifier "value" = true ∧
      quotedName? "In \"src/'a b'.ts\" the \u20182nd\u2019 use of \x60value\x60 isn't declared" = some "value" ∧
      ∃ (earlier : List Passage) (last : Passage) (rest : String),
        "In \"src/'a b'.ts\" the \u20182nd\u2019 use of \x60value\x60 isn't declared" =
          Passage.textOf earlier ++ last.text ++ rest ∧ "value".toList <:+: last.run.content.toList := by
  obtain ⟨finds, stands⟩ := quoted_names_are_found
  have others : ∀ p ∈ pathAndOrdinal, isIdentifier p.run.content = false := by decide +kernel
  have unquoted : IsUnquoted " use of " := by decide +kernel
  have isPair : ('\x60', '\x60') ∈ quotePairs := by decide
  have identifier : isIdentifier "value" = true := by decide +kernel
  have found := finds pathAndOrdinal " use of " "value" " isn't declared" '\x60' '\x60' others unquoted isPair identifier
  have text : Passage.textOf pathAndOrdinal ++
      (" use of " ++ (String.singleton '\x60' ++ "value" ++ String.singleton '\x60')) ++ " isn't declared" =
        "In \"src/'a b'.ts\" the \u20182nd\u2019 use of \x60value\x60 isn't declared" := by decide +kernel
  rw [text] at found
  exact ⟨others, unquoted, isPair, identifier, found, (stands _ _ found).2⟩

end BindingRepair
