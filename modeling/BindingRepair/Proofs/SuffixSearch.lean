/-
# The search for a free form of a name

A name that is taken is tried with the numbers from 1 on behind it. The search finds the first form that is free,
and fails only if no form is. With more attempts than names are bound, used and provided it does not fail: no two
numbers make one form, and a form with a number is neither a reserved word nor a global of every runtime.
-/

import BindingRepair.Proofs.Grammar.Parsed
import BindingRepair.Proofs.ScopeForest
import BindingRepair.Repair.FreshName
import Mathlib.Data.List.Dedup
import Mathlib.Data.List.Perm.Subperm

namespace BindingRepair.Script

/-- The forms of a name in the order in which they are tried: the name itself, then the name with each number. -/
def form (name : String) : Nat → String
  | 0 => name
  | n + 1 => numbered name (n + 1)

theorem form_of_pos (name : String) {n : Nat} (positive : 0 < n) : form name n = numbered name n := by
  cases n with
  | zero => cases positive
  | succ n => rfl

/-- Every form begins with the name. -/
theorem prefix_form (name : String) (n : Nat) : name.toList <+: (form name n).toList := by
  cases n with
  | zero => exact List.prefix_rfl
  | succ n =>
      rw [form, numbered, String.toList_append, String.toList_append, List.append_assoc]
      exact List.prefix_append ..

theorem firstNumbered?_eq_find? (free : String → Bool) (name : String) (n attempts : Nat) :
    firstNumbered? free name n attempts = ((List.range' n attempts).map (numbered name)).find? free := by
  induction attempts generalizing n with
  | zero => rfl
  | succ attempts ih =>
      rw [firstNumbered?, ih, List.range'_succ, List.map_cons, List.find?_cons]
      cases free (numbered name n) <;> rfl

namespace Tree

variable {t : Tree} {s : ScopeId} {use : NameUse} {globals : NameSet} {attempts : Nat} {name fresh : String}

/-- The search runs through the forms of the name. -/
theorem freshName?_eq_find? : t.freshName? s use globals attempts name =
    ((List.range (attempts + 1)).map (form name)).find? (t.isFree s use globals) := by
  have later : (List.range' 1 attempts).map (numbered name) = (List.range' 1 attempts).map (form name) :=
    List.map_congr_left fun n here => (form_of_pos name (List.mem_range'_1.mp here).1).symm
  rw [freshName?, firstNumbered?_eq_find?, later, List.range_eq_range', List.range'_succ, List.map_cons,
    List.find?_cons]
  cases free : t.isFree s use globals name <;> simp [form, free]

/-- The form that is found is the first that is free. -/
theorem freshName?_eq_some_iff : t.freshName? s use globals attempts name = some fresh ↔
    ∃ n ≤ attempts, fresh = form name n ∧ t.isFree s use globals fresh = true ∧
      ∀ m < n, t.isFree s use globals (form name m) = false := by
  rw [freshName?_eq_find?, List.find?_map, Option.map_eq_some_iff]
  simp only [List.find?_range_eq_some, Function.comp_apply, List.mem_range, Nat.lt_succ_iff, Bool.not_eq_true']
  constructor
  · rintro ⟨n, ⟨free, bounded, first⟩, rfl⟩
    exact ⟨n, bounded, rfl, free, first⟩
  · rintro ⟨n, bounded, rfl, free, first⟩
    exact ⟨n, ⟨free, bounded, first⟩, rfl⟩

/-- Nothing is found if no form is free. -/
theorem freshName?_eq_none_iff : t.freshName? s use globals attempts name = none ↔
    ∀ n ≤ attempts, t.isFree s use globals (form name n) = false := by
  simp only [freshName?_eq_find?, List.find?_eq_none, List.forall_mem_map, List.mem_range, Nat.lt_succ_iff,
    Bool.not_eq_true]

end Tree

/-! ### Forms with numbers -/

theorem toList_numbered (name : String) (n : Nat) :
    (numbered name n).toList = name.toList ++ '_' :: Nat.toDigits 10 n := by
  simp [numbered]

/-- Different numbers make different forms. -/
theorem numbered_injective (name : String) : Function.Injective (numbered name) := by
  intro m n same
  have chars := congrArg String.toList same
  rw [toList_numbered, toList_numbered, List.append_cancel_left_eq] at chars
  have digits := (List.cons.inj chars).2
  rw [← Nat.ofDigitChars_ten_toDigits (n := m), digits, Nat.ofDigitChars_ten_toDigits]

/-- A form with a number ends in a digit. -/
theorem exists_digit_of_numbered (name : String) (n : Nat) :
    ∃ digit, (numbered name n).toList.getLast? = some digit ∧ digit.isDigit = true := by
  have more : Nat.toDigits 10 n ≠ [] := Nat.toDigits_ne_nil
  refine ⟨(Nat.toDigits 10 n).getLast more, ?_, ?_⟩
  · rw [toList_numbered, List.getLast?_append, List.getLast?_cons, List.getLast?_eq_some_getLast more]
    rfl
  · exact Nat.isDigit_of_mem_toDigits (by decide) (by decide) (List.getLast_mem more)

/-- No word that the language reserves or every runtime provides ends in a digit. -/
theorem not_digit_of_mem_words : ∀ word ∈ reservedWords ++ knownGlobals,
    word.toList.getLast?.any Char.isDigit = false := by
  decide +kernel

/-- A form with a number is taken only if it is among the further globals. -/
theorem mem_globals_of_isTaken {globals : NameSet} {name : String} {n : Nat}
    (taken : isTaken globals (numbered name n) = true) : numbered name n ∈ globals := by
  obtain ⟨digit, last, isDigit⟩ := exists_digit_of_numbered name n
  have noWord (listed : numbered name n ∈ reservedWords ++ knownGlobals) : False := by
    have other := not_digit_of_mem_words _ listed
    rw [last, Option.any_some, isDigit] at other
    cases other
  rw [isTaken, isReservedWord, isKnownGlobal, Bool.or_eq_true, Bool.or_eq_true, List.contains_iff_mem,
    List.contains_iff_mem, List.contains_iff_mem] at taken
  rcases taken with (reserved | known) | further
  · exact (noWord (List.mem_append_left _ reserved)).elim
  · exact (noWord (List.mem_append_right _ known)).elim
  · exact further

/-! ### Names that stand in the way -/

/-- The names that some scope binds, each once. -/
def ScopeForest.boundNames (f : ScopeForest) : List String :=
  (f.scopes.toList.flatMap fun scope => scope.bindings.map (·.1)).dedup

/-- The names that references use, each once. -/
def Tree.referenceNames (t : Tree) : List String :=
  (t.references.toList.filterMap t.name?).dedup

namespace ScopeForest

variable {f : ScopeForest} {name : String}

theorem mem_boundNames : name ∈ f.boundNames ↔ ∃ s, f.binds s name = true := by
  have bindsIn (scope : Scope) : scope.bindings.binds name = true ↔ name ∈ scope.bindings.map (·.1) := by
    rw [NameTable.binds, List.lookup_isSome_iff, List.mem_map]
    exact exists_congr fun entry => and_congr_right fun _ => beq_iff_eq.trans eq_comm
  rw [boundNames, List.mem_dedup, List.mem_flatMap]
  simp only [← bindsIn, Array.mem_toList_iff]
  constructor
  · rintro ⟨scope, here, bound⟩
    obtain ⟨i, bounded, rfl⟩ := Array.mem_iff_getElem.mp here
    exact ⟨⟨i⟩, by simpa [binds, bindingsOf, get?, bounded] using bound⟩
  · rintro ⟨s, bound⟩
    cases found : f.get? s with
    | none => simp [binds, bindingsOf, found, NameTable.binds] at bound
    | some scope =>
        rw [binds, bindingsOf, found] at bound
        exact ⟨scope, Array.mem_of_getElem? found, bound⟩

/-- A name that is bound below a scope is bound in some scope. -/
theorem exists_binds_of_bindsBelow {s : ScopeId} (below : f.bindsBelow s name = true) :
    ∃ t, f.binds t name = true := by
  fun_induction bindsBelow f s name with
  | case1 s ih =>
      rw [Bool.or_eq_true, List.any_eq_true] at below
      rcases below with here | ⟨c, -, inside⟩
      · exact ⟨s, here⟩
      · split at inside
        · next deeper => exact ih c deeper inside
        · cases inside

end ScopeForest

namespace Tree

variable {t : Tree} {s : ScopeId} {use : NameUse} {globals : NameSet} {attempts : Nat} {name : String}

theorem mem_referenceNames_of_wouldCapture (captures : t.wouldCapture s name = true) : name ∈ t.referenceNames := by
  rw [wouldCapture, Array.any_eq_true'] at captures
  obtain ⟨r, here, captured⟩ := captures
  rw [Bool.and_eq_true, Bool.and_eq_true, beq_iff_eq] at captured
  exact List.mem_dedup.mpr (List.mem_filterMap.mpr ⟨r, Array.mem_toList_iff.mpr here, captured.1.1⟩)

/-- What is not free is taken, bound in some scope, or the name of a reference. -/
theorem cases_of_not_isFree (free : t.isFree s use globals name = false) :
    isTaken globals name = true ∨ name ∈ t.scopes.boundNames ∨ name ∈ t.referenceNames := by
  cases taken : isTaken globals name with
  | true => exact .inl rfl
  | false =>
      right
      cases visible : t.isVisible s name with
      | true =>
          obtain ⟨r, found⟩ := Option.isSome_iff_exists.mp visible
          exact .inl (ScopeForest.mem_boundNames.mpr ⟨r, ScopeForest.binds_of_resolve? found⟩)
      | false =>
          cases use with
          | declaration => simp [isFree, taken, visible] at free
          | rename =>
              cases below : t.scopes.bindsBelow s name with
              | true => exact .inl (ScopeForest.mem_boundNames.mpr (ScopeForest.exists_binds_of_bindsBelow below))
              | false =>
                  cases captures : t.wouldCapture s name with
                  | true => exact .inr (mem_referenceNames_of_wouldCapture captures)
                  | false => simp [isFree, taken, visible, below, captures] at free

/-- Among more numbers than there are names in the way, one makes a free form. -/
theorem exists_free_form (t : Tree) (s : ScopeId) (use : NameUse) (name : String)
    (enough : t.scopes.boundNames.length + t.referenceNames.length + globals.dedup.length < attempts) :
    ∃ n ≤ attempts, t.isFree s use globals (form name n) = true := by
  by_contra none
  push Not at none
  let inTheWay := t.scopes.boundNames ++ t.referenceNames ++ globals.dedup
  let forms := (List.range' 1 attempts).map (numbered name)
  have nodup : forms.Nodup := List.Nodup.map (numbered_injective name) List.nodup_range'
  have occupied : forms ⊆ inTheWay := by
    intro other here
    obtain ⟨n, number, rfl⟩ := List.mem_map.mp here
    obtain ⟨positive, bounded⟩ := List.mem_range'_1.mp number
    have free := none n (by omega)
    rw [form_of_pos name positive, ne_eq, Bool.not_eq_true] at free
    rcases cases_of_not_isFree free with taken | bound | used
    · exact List.mem_append_right _ (List.mem_dedup.mpr (mem_globals_of_isTaken taken))
    · exact List.mem_append_left _ (List.mem_append_left _ bound)
    · exact List.mem_append_left _ (List.mem_append_right _ used)
  have length := (nodup.subperm occupied).length_le
  simp only [forms, inTheWay, List.length_map, List.length_range', List.length_append] at length
  omega

/-- The search finds the first free form of a name, fails only if none is free, and does not fail with more attempts
than names are in the way. -/
theorem search_is_exact (t : Tree) (s : ScopeId) (use : NameUse) (globals : NameSet) (attempts : Nat) (name : String) :
    (∀ fresh, t.freshName? s use globals attempts name = some fresh ↔
      ∃ n ≤ attempts, fresh = form name n ∧ t.isFree s use globals fresh = true ∧
        ∀ m < n, t.isFree s use globals (form name m) = false) ∧
    (t.freshName? s use globals attempts name = none ↔
      ∀ n ≤ attempts, t.isFree s use globals (form name n) = false) ∧
    (t.scopes.boundNames.length + t.referenceNames.length + globals.dedup.length < attempts →
      t.freshName? s use globals attempts name ≠ none) := by
  refine ⟨fun fresh => freshName?_eq_some_iff, freshName?_eq_none_iff, fun enough failed => ?_⟩
  obtain ⟨n, bounded, free⟩ := exists_free_form t s use name enough
  rw [freshName?_eq_none_iff.mp failed n bounded] at free
  cases free

set_option maxRecDepth 100000 in
/-- The name and its first form are bound, the second is the name of a reference and the third a global; the search
has more attempts than names are in the way, and finds the fourth. -/
theorem search_in_crowded_scope : ∃ t, parse "function App() \x7b let a, a_1; a_2 \x7d" .javascript = .ok t ∧
    t.scopes.boundNames.length + t.referenceNames.length + ["a_3"].dedup.length < 6 ∧
    t.freshName? ⟨1⟩ .rename ["a_3"] 6 "a" ≠ none ∧ t.freshName? ⟨1⟩ .rename ["a_3"] 6 "a" = some "a_4" := by
  obtain ⟨t, parsed, test⟩ := exists_ok_of_test
    (parse "function App() \x7b let a, a_1; a_2 \x7d" .javascript)
    (fun t => t.scopes.boundNames.length + t.referenceNames.length + ["a_3"].dedup.length < 6 &&
      (List.range 4).all (fun n => !t.isFree ⟨1⟩ .rename ["a_3"] (form "a" n)) &&
      t.isFree ⟨1⟩ .rename ["a_3"] (form "a" 4)) (by decide +kernel)
  rw [Bool.and_eq_true, Bool.and_eq_true, List.all_eq_true] at test
  obtain ⟨⟨few, taken⟩, free⟩ := test
  have enough := of_decide_eq_true few
  obtain ⟨finds, -, found⟩ := search_is_exact t ⟨1⟩ .rename ["a_3"] 6 "a"
  refine ⟨t, parsed, enough, found enough, (finds "a_4").mpr ⟨4, by decide, by decide, free, fun m less => ?_⟩⟩
  simpa using taken m (List.mem_range.mpr less)

end Tree

end BindingRepair.Script
