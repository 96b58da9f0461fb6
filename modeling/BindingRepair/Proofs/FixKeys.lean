/-
# Keys of fixes

A key is parts with bars between them. The parts that may hold a bar themselves stand first behind the word for the
kind of the fix; what follows is free of bars if the names of the fix are identifiers, so a key is read from its end.
Then no two fixes share a key, whatever their modules and places, and in a plan no two identifiers are made from
one text.
-/

import BindingRepair.Proofs.PlanContents

namespace BindingRepair

/-! ### Parts behind a separator -/

/-- What stands behind the last separator is told by the whole. -/
theorem eq_of_append_cons_eq {separator : Char} {front behind front' behind' : List Char}
    (last : separator ∉ behind) (last' : separator ∉ behind')
    (same : front ++ separator :: behind = front' ++ separator :: behind') : front = front' ∧ behind = behind' := by
  rcases List.append_eq_append_iff.mp same with ⟨between, rfl, rest⟩ | ⟨between, rfl, rest⟩
  · cases between with
    | nil => exact ⟨(List.append_nil _).symm, (List.cons.inj rest).2⟩
    | cons c cs => exact absurd (by simp [(List.cons.inj rest).2]) last
  · cases between with
    | nil => exact ⟨List.append_nil _, (List.cons.inj rest).2.symm⟩
    | cons c cs => exact absurd (by simp [(List.cons.inj rest).2]) last'

theorem ne_nil_of_isIdentifier {name : String} (identifier : isIdentifier name = true) : name.toList ≠ [] := by
  obtain ⟨c, cs, chars, -⟩ := isIdentifier_iff.mp identifier
  exact chars ▸ List.cons_ne_nil c cs

/-! ### Places -/

namespace Text.Position

/-- A number is told by its digits. -/
theorem eq_of_toList_toString_eq {m n : Nat} (same : (toString m).toList = (toString n).toList) : m = n := by
  simp only [Nat.toString_eq_ofList_toDigits, String.toList_ofList] at same
  rw [← Nat.ofDigitChars_ten_toDigits (n := m), same, Nat.ofDigitChars_ten_toDigits]

theorem colon_not_mem_toString (n : Nat) : ':' ∉ (toString n).toList := by
  intro here
  rw [Nat.toString_eq_ofList_toDigits, String.toList_ofList] at here
  exact absurd (Nat.isDigit_of_mem_toDigits (by decide) (by decide) here) (by decide)

theorem toList_render (p : Position) :
    p.render.toList = (toString p.line).toList ++ ':' :: (toString p.column).toList := by
  simp [render]

/-- A place is told by its text. -/
theorem render_injective : Function.Injective render := by
  intro p q same
  have chars := congrArg String.toList same
  rw [toList_render, toList_render] at chars
  obtain ⟨line, column⟩ :=
    eq_of_append_cons_eq (colon_not_mem_toString p.column) (colon_not_mem_toString q.column) chars
  cases p
  cases q
  rw [mk.injEq]
  exact ⟨eq_of_toList_toString_eq line, eq_of_toList_toString_eq column⟩

end Text.Position

/-! ### Names with commas between them -/

/-- Names with commas between them are nothing only if there is no name. -/
theorem toList_intercalate_eq_nil {names : List String} (are : ∀ name ∈ names, isIdentifier name = true)
    (nothing : (",".intercalate names).toList = []) : names = [] := by
  cases names with
  | nil => rfl
  | cons name names =>
      have first := ne_nil_of_isIdentifier (are name List.mem_cons_self)
      rw [String.toList_intercalate] at nothing
      cases names with
      | nil => simp [first] at nothing
      | cons next names => simp [List.intercalate_cons_cons, first] at nothing

/-- Where there are names, the text parted at the commas shows them. -/
theorem splitOn_intercalate {names : List String} (are : ∀ name ∈ names, isIdentifier name = true)
    (some : names ≠ []) : (",".intercalate names).toList.splitOn ',' = names.map String.toList := by
  rw [String.toList_intercalate]
  refine List.splitOn_intercalate _ (fun part here => ?_) (mt List.map_eq_nil_iff.mp some)
  obtain ⟨name, listed, rfl⟩ := List.mem_map.mp here
  exact not_mem_toList_of_isIdentifier (are name listed) (by decide)

/-- Names with commas between them are told by the text. -/
theorem eq_of_intercalate_eq {names names' : List String} (are : ∀ name ∈ names, isIdentifier name = true)
    (are' : ∀ name ∈ names', isIdentifier name = true)
    (same : (",".intercalate names).toList = (",".intercalate names').toList) : names = names' := by
  rcases eq_or_ne names [] with rfl | some
  · exact (toList_intercalate_eq_nil are' same.symm).symm
  · rcases eq_or_ne names' [] with rfl | some'
    · exact toList_intercalate_eq_nil are same
    · have parts := splitOn_intercalate are some
      rw [same, splitOn_intercalate are' some'] at parts
      exact (List.map_injective_iff.mpr fun _ _ => String.toList_inj.mp) parts.symm

/-- Names with commas between them hold no bar. -/
theorem bar_not_mem_intercalate {names : List String} (are : ∀ name ∈ names, isIdentifier name = true) :
    '|' ∉ (",".intercalate names).toList := by
  rw [String.toList_intercalate]
  induction names with
  | nil => exact List.not_mem_nil
  | cons name names ih =>
      obtain ⟨first, later⟩ := List.forall_mem_cons.mp are
      have barless := not_mem_toList_of_isIdentifier first (show isIdentifierPart '|' = false by decide)
      cases names with
      | nil => simpa using barless
      | cons next names =>
          rw [List.map_cons, List.map_cons, List.intercalate_cons_cons]
          simpa [barless] using ih later

/-! ### Keys -/

namespace Fix

/-- The names of bindings that a fix holds. -/
def names : Fix → List String
  | rename _ name | singleDeclaration name => [name]
  | importMerge _ names _ => names
  | pairedDeclaration value setter => [value, setter]

/-- Every name of the fix is an identifier. -/
def HoldsIdentifiers (fix : Fix) : Prop :=
  ∀ name ∈ fix.names, isIdentifier name = true

instance (fix : Fix) : Decidable fix.HoldsIdentifiers :=
  inferInstanceAs (Decidable (∀ name ∈ fix.names, isIdentifier name = true))

/-- The first letter of a key tells the kind of the fix. -/
theorem label_eq_of_key_eq {a b : Fix} (same : a.key = b.key) : a.label = b.label := by
  have first := congrArg (fun key => key.toList.head?) same
  cases a <;> cases b <;> first | rfl | simp [key] at first

/-- The flag of an import is told by its text, which holds no bar. -/
theorem eq_of_flag_eq {a b : Bool}
    (same : (if a then "true" else "false" : String).toList = (if b then "true" else "false" : String).toList) :
    a = b := by
  revert a b
  decide

theorem bar_not_mem_flag (a : Bool) : '|' ∉ (if a then "true" else "false" : String).toList := by
  revert a
  decide

/-- Two texts with a bar and a part behind it, where the part holds no bar. -/
theorem eq_of_parts_eq {front front' behind behind' : String} (last : '|' ∉ behind.toList) (last' : '|' ∉ behind'.toList)
    (same : front ++ "|" ++ behind = front' ++ "|" ++ behind') : front = front' ∧ behind = behind' := by
  have chars := congrArg String.toList same
  simp only [String.toList_append, List.append_assoc] at chars
  obtain ⟨first, second⟩ := eq_of_append_cons_eq last last' chars
  exact ⟨String.toList_inj.mp first, String.toList_inj.mp second⟩

/-- A key tells the fix, if the names are identifiers. -/
theorem eq_of_key_eq {a b : Fix} (identifiers : a.HoldsIdentifiers) (identifiers' : b.HoldsIdentifiers)
    (same : a.key = b.key) : a = b := by
  have kind := label_eq_of_key_eq same
  have barless {name : String} (identifier : isIdentifier name = true) : '|' ∉ name.toList :=
    not_mem_toList_of_isIdentifier identifier (by decide)
  cases a with
  | rename position name =>
      cases b with
      | rename position' name' =>
          have bare := barless (identifiers name List.mem_cons_self)
          have bare' := barless (identifiers' name' List.mem_cons_self)
          obtain ⟨front, rfl⟩ := eq_of_parts_eq bare bare' same
          rw [Text.Position.render_injective ((String.append_right_inj _).mp front)]
      | _ => simp [label] at kind
  | importMerge module names onlyIfImported =>
      cases b with
      | importMerge module' names' onlyIfImported' =>
          obtain ⟨front, flag⟩ := eq_of_parts_eq (bar_not_mem_flag _) (bar_not_mem_flag _) same
          obtain ⟨sameModule, listed⟩ :=
            eq_of_parts_eq (bar_not_mem_intercalate identifiers) (bar_not_mem_intercalate identifiers') front
          obtain rfl : names = names' := eq_of_intercalate_eq identifiers identifiers' (congrArg String.toList listed)
          rw [(String.append_right_inj _).mp sameModule, eq_of_flag_eq (congrArg String.toList flag)]
      | _ => simp [label] at kind
  | pairedDeclaration value setter =>
      cases b with
      | pairedDeclaration value' setter' =>
          have bare := barless (identifiers setter (by simp [names]))
          have bare' := barless (identifiers' setter' (by simp [names]))
          obtain ⟨front, rfl⟩ := eq_of_parts_eq bare bare' same
          rw [(String.append_right_inj _).mp front]
      | _ => simp [label] at kind
  | singleDeclaration name =>
      cases b with
      | singleDeclaration name' => rw [(String.append_right_inj _).mp same]
      | _ => simp [label] at kind

end Fix

/-! ### Identifiers of fixes -/

/-- The text that the identifier of a fix of a file is made from. -/
def stableKey (filePath : String) (fix : Fix) : String :=
  filePath ++ "|" ++ fix.key

theorem id_ofFix (filePath : String) (fix : Fix) :
    (PlannedFix.ofFix filePath fix).id = Digest.uuidOfName fixIdSpace (stableKey filePath fix) := by
  rw [PlannedFix.ofFix, stableKey]

/-- Keys tell fixes whose names are identifiers, whatever their modules and places. In the plan of such fixes each
identifier is made from a text of its own. -/
theorem keys_tell_fixes :
    (∀ a b : Fix, a.HoldsIdentifiers → b.HoldsIdentifiers → a.key = b.key → a = b) ∧
      ∀ (filePath : String) (exempt : Nat) (fixes : List Fix), (∀ fix ∈ fixes, fix.HoldsIdentifiers) →
        (∀ planned ∈ (fixes.foldl FixPlan.push { filePath, exempt }).fixes,
          planned.id = Digest.uuidOfName fixIdSpace (stableKey filePath planned.fix)) ∧
        (fixes.foldl FixPlan.push { filePath, exempt }).fixes.Pairwise fun planned other =>
          stableKey filePath planned.fix ≠ stableKey filePath other.fix := by
  refine ⟨fun a b => Fix.eq_of_key_eq, fun filePath exempt fixes are => ⟨fun planned here => ?_, ?_⟩⟩
  · have own := FixPlan.ids_foldl_push fixes { filePath, exempt } (List.forall_mem_nil _) planned here
    exact (congrArg PlannedFix.id own).trans (id_ofFix filePath planned.fix)
  · have apart : (fixes.foldl FixPlan.push { filePath, exempt }).contents.Nodup :=
      FixPlan.nodup_contents_foldl_push _ _ List.nodup_nil
    rw [FixPlan.contents, List.Nodup, List.pairwise_map] at apart
    have identifiers (planned) (here : planned ∈ (fixes.foldl FixPlan.push { filePath, exempt }).fixes) :
        planned.fix.HoldsIdentifiers := by
      have listed := List.mem_map_of_mem (f := PlannedFix.fix) here
      rcases (FixPlan.mem_contents_foldl_push fixes { filePath, exempt }).mp listed with old | new
      · cases old
      · exact are _ new
    refine apart.imp_of_mem fun here here' differs same => differs ?_
    exact Fix.eq_of_key_eq (identifiers _ here) (identifiers _ here') ((String.append_right_inj _).mp same)

/-- Fixes whose keys differ only in where a bar, a comma or a colon stands. -/
def similarFixes : List Fix :=
  [.importMerge "m|a" ["b"] true, .importMerge "m" ["a", "b"] true, .pairedDeclaration "a" "b",
    .rename ⟨1, 12⟩ "x", .rename ⟨11, 2⟩ "x"]

/-- A plan of similar fixes makes each identifier from a text of its own, and the names of an import may be given in
any order. -/
theorem keys_of_similarFixes :
    (∀ fix ∈ similarFixes, fix.HoldsIdentifiers) ∧
      (similarFixes.foldl FixPlan.push { filePath := "src/A.js", exempt := 0 }).contents = similarFixes ∧
      ((similarFixes.foldl FixPlan.push { filePath := "src/A.js", exempt := 0 }).fixes.Pairwise fun planned other =>
        stableKey "src/A.js" planned.fix ≠ stableKey "src/A.js" other.fix) ∧
      (Fix.importMerge "m|a" (NameSet.ofNames ["c", "b"]) true).key = (Fix.importMerge "m|a" ["b", "c"] true).key ∧
      Fix.importMerge "m|a" (NameSet.ofNames ["c", "b"]) true = .importMerge "m|a" ["b", "c"] true := by
  obtain ⟨tells, plans⟩ := keys_tell_fixes
  have are : ∀ fix ∈ similarFixes, fix.HoldsIdentifiers := by decide +kernel
  have sameKey : (Fix.importMerge "m|a" (NameSet.ofNames ["c", "b"]) true).key =
      (Fix.importMerge "m|a" ["b", "c"] true).key := by decide +kernel
  exact ⟨are, by decide +kernel, (plans "src/A.js" 0 similarFixes are).2, sameKey,
    tells _ _ (by decide +kernel) (by decide +kernel) sameKey⟩

end BindingRepair
