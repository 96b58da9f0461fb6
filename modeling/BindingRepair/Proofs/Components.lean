/-
# Components of paths

A path of names is read back as those names, and what is joined to a directory adds its components to those
of the directory. Slashes and dots beyond those that separate names change nothing.
-/

import BindingRepair.Path
import Mathlib.Data.List.Basic

namespace BindingRepair.Path

/-- A name that a directory can list. -/
structure IsName (name : String) : Prop where
  nonempty : name ≠ ""
  notHere : name ≠ "."
  notUp : name ≠ ".."
  slashless : '/' ∉ name.toList

/-! ### Segments -/

/-- The component that a path begins with, if it is no name. -/
def lead (path : String) : List Component :=
  if isAbsolute path then [.root] else if (segments path).head? == some ['.'] then [.here] else []

/-- The components that the segments of a path stand for. -/
def inner (path : String) : List Component :=
  (segments path).filterMap Component.ofSegment?

theorem components_eq (path : String) : components path = lead path ++ inner path := rfl

theorem segments_ne_nil (path : String) : segments path ≠ [] :=
  List.splitOn_ne_nil _ _

theorem segments_slash (front behind : String) :
    segments (front ++ "/" ++ behind) = segments front ++ segments behind := by
  simp only [segments, String.toList_append, List.append_assoc]
  exact List.splitOn_append_cons_self _ _

theorem inner_slash (front behind : String) : inner (front ++ "/" ++ behind) = inner front ++ inner behind := by
  rw [inner, segments_slash, List.filterMap_append]
  rfl

@[simp] theorem inner_empty : inner "" = [] := by
  decide

/-- What only begins a path is not among its inner components. -/
theorem of_mem_inner {path : String} {part : Component} (here : part ∈ inner path) : part ≠ .root ∧ part ≠ .here := by
  obtain ⟨segment, -, is⟩ := List.mem_filterMap.mp here
  unfold Component.ofSegment? at is
  split at is <;> cases is <;> exact ⟨nofun, nofun⟩

/-- Paths with the same components have the same inner ones. -/
theorem inner_congr {path other : String} (same : components path = components other) : inner path = inner other := by
  have filtered (path : String) :
      (components path).filter (fun part => part ≠ .root ∧ part ≠ .here) = inner path := by
    have dropped : (lead path).filter (fun part => part ≠ .root ∧ part ≠ .here) = [] := by
      unfold lead
      split
      · rfl
      · split <;> rfl
    rw [components_eq, List.filter_append, dropped, List.nil_append]
    exact List.filter_eq_self.mpr fun part here => decide_eq_true (of_mem_inner here)
  rw [← filtered path, ← filtered other, same]

/-- How a path begins is settled by what stands before a slash. -/
theorem lead_slash (front behind : String) : lead (front ++ "/" ++ behind) = lead (front ++ "/") := by
  have same : (segments (front ++ "/" ++ behind)).head? = (segments (front ++ "/" ++ "")).head? := by
    rw [segments_slash, segments_slash, List.head?_append_of_ne_nil _ (segments_ne_nil front),
      List.head?_append_of_ne_nil _ (segments_ne_nil front)]
  have absolute : isAbsolute (front ++ "/" ++ behind) = isAbsolute (front ++ "/") := by
    simp only [isAbsolute, String.toList_append, List.append_assoc]
    cases front.toList <;> rfl
  rw [String.append_empty] at same
  rw [lead, lead, same, absolute]

/-- What stands behind a slash adds its components. -/
theorem components_slash (front behind : String) :
    components (front ++ "/" ++ behind) = components (front ++ "/") ++ inner behind := by
  have ends : inner (front ++ "/") = inner front := by
    have parts := inner_slash front ""
    rwa [String.append_empty, inner_empty, List.append_nil] at parts
  rw [components_eq, components_eq, lead_slash, inner_slash, ends, List.append_assoc]

/-- A slash at the end changes nothing. -/
theorem components_trailing {path : String} (nonempty : path ≠ "") : components (path ++ "/") = components path := by
  have same : lead (path ++ "/") = lead path := by
    have parts : segments (path ++ "/") = segments path ++ segments "" := by
      have parts := segments_slash path ""
      rwa [String.append_empty] at parts
    have absolute : isAbsolute (path ++ "/") = isAbsolute path := by
      simp only [isAbsolute, String.toList_append]
      cases chars : path.toList with
      | nil => exact absurd (String.toList_eq_nil_iff.mp chars) nonempty
      | cons c cs => rfl
    rw [lead, lead, parts, absolute, List.head?_append_of_ne_nil _ (segments_ne_nil path)]
  have parts := inner_slash path ""
  rw [String.append_empty, inner_empty, List.append_nil] at parts
  rw [components_eq, components_eq, same, parts]

/-! ### Names -/

theorem Component.ofSegment?_name {name : String} (is : IsName name) :
    Component.ofSegment? name.toList = some (.name name) := by
  unfold Component.ofSegment?
  split
  · next empty => exact absurd (String.toList_eq_nil_iff.mp empty) is.nonempty
  · next dot => exact absurd (String.toList_injective dot) is.notHere
  · next dots => exact absurd (String.toList_injective dots) is.notUp
  · rw [String.ofList_toList]

theorem Component.eq_of_ofSegment?_name {segment : List Char} {name : String}
    (is : Component.ofSegment? segment = some (.name name)) : name = String.ofList segment := by
  unfold Component.ofSegment? at is
  split at is
  · cases is
  · cases is
  · cases is
  · exact (Component.name.inj (Option.some.inj is)).symm

/-- The separator stands in none of the parts of a text. -/
theorem not_mem_of_mem_splitOn {α : Type} [BEq α] [LawfulBEq α] {a : α} {part xs : List α}
    (here : part ∈ xs.splitOn a) : a ∉ part := by
  induction xs generalizing part with
  | nil =>
      rw [List.splitOn_nil, List.mem_singleton] at here
      rw [here]
      exact List.not_mem_nil
  | cons x xs ih =>
      rw [List.splitOn_cons_eq_if_modifyHead] at here
      split at here
      · rcases List.mem_cons.mp here with rfl | later
        · exact List.not_mem_nil
        · exact ih later
      · next other =>
        cases parts : xs.splitOn a with
        | nil => exact absurd parts (List.splitOn_ne_nil _ _)
        | cons first rest =>
            rw [parts] at here ih
            rcases List.mem_cons.mp here with rfl | later
            · rw [List.mem_cons, not_or]
              exact ⟨fun same => other (beq_iff_eq.mpr same.symm), ih List.mem_cons_self⟩
            · exact ih (List.mem_cons_of_mem _ later)

/-- The names among the components of a path can be listed. -/
theorem isName_of_mem_components {path name : String} (here : .name name ∈ components path) : IsName name := by
  have listed : .name name ∈ inner path := by
    rw [components_eq] at here
    refine (List.mem_append.mp here).resolve_left fun leads => ?_
    unfold lead at leads
    split at leads
    · cases List.mem_singleton.mp leads
    · split at leads
      · cases List.mem_singleton.mp leads
      · cases leads
  obtain ⟨segment, inPath, is⟩ := List.mem_filterMap.mp listed
  unfold Component.ofSegment? at is
  split at is
  · cases is
  · cases is
  · cases is
  · next empty dot dots =>
    cases is
    refine ⟨fun same => empty ?_, fun same => dot ?_, fun same => dots ?_, ?_⟩
    · rw [← String.toList_ofList (l := segment), same]; rfl
    · rw [← String.toList_ofList (l := segment), same]; rfl
    · rw [← String.toList_ofList (l := segment), same]; rfl
    · rw [String.toList_ofList]
      exact not_mem_of_mem_splitOn inPath

theorem segments_ofNames {names : List String} (are : ∀ name ∈ names, IsName name) (nonempty : names ≠ []) :
    segments (ofNames names) = names.map String.toList := by
  unfold segments ofNames
  rw [String.toList_intercalate]
  refine List.splitOn_intercalate _ (fun part here => ?_) (mt List.map_eq_nil_iff.mp nonempty)
  obtain ⟨name, listed, rfl⟩ := List.mem_map.mp here
  exact (are name listed).slashless

/-- A path of names begins with the first of them. -/
theorem head_ofNames {name : String} (is : IsName name) (names : List String) :
    ∃ c cs, name.toList = c :: cs ∧ (ofNames (name :: names)).toList.head? = some c := by
  cases chars : name.toList with
  | nil => exact absurd (String.toList_eq_nil_iff.mp chars) is.nonempty
  | cons c cs =>
      refine ⟨c, cs, rfl, ?_⟩
      cases names with
      | nil => simp [ofNames, chars]
      | cons next names => simp [ofNames, String.intercalate_cons_cons, chars]

theorem isAbsolute_ofNames {names : List String} (are : ∀ name ∈ names, IsName name) :
    isAbsolute (ofNames names) = false := by
  cases names with
  | nil => rfl
  | cons name names =>
      have is := are name List.mem_cons_self
      obtain ⟨c, cs, chars, head⟩ := head_ofNames is names
      rw [isAbsolute, head, beq_eq_false_iff_ne]
      intro same
      refine is.slashless ?_
      rw [chars, Option.some.inj same]
      exact List.mem_cons_self

/-- The components of a path of names are those names. -/
theorem components_ofNames {names : List String} (are : ∀ name ∈ names, IsName name) :
    components (ofNames names) = names.map .name := by
  by_cases nonempty : names = []
  · rw [nonempty]
    rfl
  have parts := segments_ofNames are nonempty
  have lead_eq : lead (ofNames names) = [] := by
    obtain ⟨name, rest, rfl⟩ := List.exists_cons_of_ne_nil nonempty
    have is := are name List.mem_cons_self
    have notHere : name.toList ≠ ['.'] := fun dot => is.notHere (String.toList_injective dot)
    rw [lead, isAbsolute_ofNames are, parts]
    simp [notHere]
  rw [components_eq, lead_eq, inner, parts, List.nil_append, List.filterMap_map, List.filterMap_eq_map_iff_forall_eq_some]
  exact fun name here => Component.ofSegment?_name (are name here)

theorem ofNames_injective {names others : List String} (are : ∀ name ∈ names, IsName name)
    (alsoAre : ∀ name ∈ others, IsName name) (same : ofNames names = ofNames others) : names = others := by
  have parts := congrArg components same
  rw [components_ofNames are, components_ofNames alsoAre] at parts
  exact List.map_injective_iff.mpr (fun _ _ => Component.name.inj) parts

/-- The names of a path are its components without the dot at its beginning. -/
theorem names?_eq_some_iff {parts : List Component} {names : List String} :
    names? parts = some names ↔ parts.filter (· ≠ .here) = names.map .name := by
  fun_induction names? parts generalizing names with
  | case1 => simp [eq_comm]
  | case2 rest ih => simpa using ih
  | case3 name rest ih =>
      rw [List.filter_cons_of_pos (by simp), Option.map_eq_some_iff]
      cases names with
      | nil => simp
      | cons first others => simp [ih, eq_comm, and_comm]
  | case4 => cases names <;> simp
  | case5 => cases names <;> simp

/-! ### Joined paths -/

theorem exists_eq_append_slash {path : String} (ends : path.toList.getLast? = some '/') :
    ∃ front, path = front ++ "/" := by
  obtain ⟨cs, chars⟩ := List.getLast?_eq_some_iff.mp ends
  exact ⟨String.ofList cs, String.toList_injective (by rw [chars, String.toList_append, String.toList_ofList]; rfl)⟩

/-- Below a directory the names of a path follow its components. -/
theorem components_join {base path : String} (nonempty : base ≠ "") (relative : isAbsolute path = false) :
    components (join base path) = components base ++ inner path := by
  have notEmpty : base.isEmpty = false := by simpa [String.isEmpty_eq_false_iff] using nonempty
  rw [join, relative, notEmpty, Bool.or_self, if_neg Bool.false_ne_true]
  split
  · next ends =>
    obtain ⟨front, rfl⟩ := exists_eq_append_slash (beq_iff_eq.mp ends)
    exact components_slash front path
  · rw [components_slash, components_trailing nonempty]

/-- What is put behind a joined path is put behind its second part. -/
theorem inner_join_append {base path : String} (relative : isAbsolute path = false) (suffix : String) :
    inner (join base path ++ suffix) = inner base ++ inner (path ++ suffix) := by
  rw [join, relative, Bool.false_or]
  split
  · next empty =>
    rw [String.isEmpty_iff.mp empty, inner_empty, List.nil_append]
  · split
    · next ends =>
      obtain ⟨front, rfl⟩ := exists_eq_append_slash (beq_iff_eq.mp ends)
      have plain := inner_slash front ""
      rw [String.append_empty, inner_empty, List.append_nil] at plain
      rw [String.append_assoc, inner_slash, plain]
    · rw [String.append_assoc, inner_slash]

/-! ### Suffixes -/

/-- A name stays one if something without slashes is put behind it. -/
theorem IsName.append {name : String} (is : IsName name) {segment : List Char} (slashless : '/' ∉ segment) :
    IsName (name ++ String.ofList segment) := by
  have chars : (name ++ String.ofList segment).toList = name.toList ++ segment := by
    rw [String.toList_append, String.toList_ofList]
  have filled : name.toList ≠ [] := fun empty => is.nonempty (String.toList_eq_nil_iff.mp empty)
  have noDot : name.toList ≠ ['.'] := fun same => is.notHere (String.toList_injective same)
  have noDots : name.toList ≠ ['.', '.'] := fun same => is.notUp (String.toList_injective same)
  refine ⟨fun same => ?_, fun same => ?_, fun same => ?_, ?_⟩
  · have both := chars.symm.trans (congrArg String.toList same)
    exact filled (List.append_eq_nil_iff.mp both).1
  · have both := chars.symm.trans (congrArg String.toList same)
    rcases List.append_eq_singleton_iff.mp both with ⟨empty, -⟩ | ⟨dot, -⟩
    · exact filled empty
    · exact noDot dot
  · have both : name.toList ++ segment = ['.', '.'] := chars.symm.trans (congrArg String.toList same)
    cases front : name.toList with
    | nil => exact filled front
    | cons c cs =>
        rw [front, List.cons_append, List.cons.injEq] at both
        obtain ⟨rfl, rest⟩ := both
        rcases List.append_eq_singleton_iff.mp rest with ⟨rfl, -⟩ | ⟨rfl, -⟩
        · exact noDot front
        · exact noDots front
  · rw [chars, List.mem_append, not_or]
    exact ⟨is.slashless, slashless⟩

/-- What is put behind a text without slashes is put behind its only segment. -/
theorem segments_append {name : String} (slashless : '/' ∉ name.toList) {suffix : String} {first : List Char}
    {rest : List (List Char)} (parts : segments suffix = first :: rest) :
    segments (name ++ suffix) = (name.toList ++ first) :: rest := by
  rw [segments, String.toList_append]
  rw [segments] at parts
  generalize name.toList = front at slashless
  induction front with
  | nil => exact parts
  | cons c cs ih =>
      rw [List.mem_cons, not_or] at slashless
      have other : (c == '/') = false := beq_eq_false_iff_ne.mpr (Ne.symm slashless.1)
      rw [List.cons_append, List.splitOn_cons_eq_if_modifyHead, other, if_neg Bool.false_ne_true, ih slashless.2]
      rfl

theorem ofNames_cons_append (name : String) (names : List String) (last : String) :
    ofNames (name :: (names ++ [last])) = name ++ "/" ++ ofNames (names ++ [last]) := by
  cases names <;> exact String.intercalate_cons_cons

/-- A suffix continues the last name of a path, up to its first slash. -/
theorem inner_ofNames_append {names : List String} {last : String} (are : ∀ name ∈ names ++ [last], IsName name)
    {suffix : String} {first : List Char} {rest : List (List Char)} (parts : segments suffix = first :: rest) :
    inner (ofNames (names ++ [last]) ++ suffix) =
      names.map .name ++ .name (last ++ String.ofList first) :: rest.filterMap Component.ofSegment? := by
  induction names with
  | nil =>
      have is := are last List.mem_cons_self
      have slashless : '/' ∉ first :=
        not_mem_of_mem_splitOn (show first ∈ segments suffix by rw [parts]; exact List.mem_cons_self)
      have segment := Component.ofSegment?_name (is.append slashless)
      rw [String.toList_append, String.toList_ofList] at segment
      have single : ofNames [last] = last := String.intercalate_singleton
      rw [List.nil_append, single, inner, segments_append is.slashless parts, List.filterMap_cons_some segment]
      rfl
  | cons name names ih =>
      obtain ⟨is, others⟩ := List.forall_mem_cons.mp are
      have alone : inner name = [.name name] := by
        have segment := Component.ofSegment?_name is
        have parts := segments_append is.slashless (show segments "" = [] :: [] by decide)
        rw [String.append_empty, List.append_nil] at parts
        rw [inner, parts, List.filterMap_cons_some segment, List.filterMap_nil]
      rw [List.cons_append, ofNames_cons_append, String.append_assoc, String.append_assoc, ← String.append_assoc,
        inner_slash, alone, ih others]
      rfl

/-- A path that is spelled as the names that it leads through. -/
def IsNormal (path : String) : Prop :=
  ∃ names, (∀ name ∈ names, IsName name) ∧ path = ofNames names

/-- Different paths of names stay different if the same suffix is put behind them. -/
theorem names_eq_of_inner_append {names others : List String} (are : ∀ name ∈ names, IsName name)
    (alsoAre : ∀ name ∈ others, IsName name) {suffix : String}
    (same : inner (ofNames names ++ suffix) = inner (ofNames others ++ suffix)) : names = others := by
  obtain ⟨first, rest, parts⟩ := List.exists_cons_of_ne_nil (segments_ne_nil suffix)
  have behindNone : inner (ofNames [] ++ suffix) =
      (Component.ofSegment? first).toList ++ rest.filterMap Component.ofSegment? := by
    have empty : ofNames [] ++ suffix = suffix := String.empty_append
    rw [empty, inner, parts, List.filterMap_cons]
    cases Component.ofSegment? first <;> rfl
  -- A suffix alone is shorter than with a name in front of it.
  have apart {front : List String} {last : String} (are : ∀ name ∈ front ++ [last], IsName name) :
      inner (ofNames [] ++ suffix) ≠ inner (ofNames (front ++ [last]) ++ suffix) := by
    intro same
    rw [behindNone, inner_ofNames_append are parts, List.append_cons] at same
    have short := List.append_cancel_right same
    cases segment : Component.ofSegment? first with
    | none =>
        rw [segment] at short
        exact List.append_ne_nil_of_right_ne_nil _ (List.cons_ne_nil _ _) short.symm
    | some part =>
        rw [segment] at short
        obtain ⟨-, ends⟩ := List.append_inj' (show [] ++ [part] = _ from short) rfl
        rw [(List.cons.inj ends).1] at segment
        have whole := (Component.eq_of_ofSegment?_name segment).trans String.empty_append.symm
        have filled := (are last (List.mem_append_right _ List.mem_cons_self)).nonempty
        exact filled ((String.append_left_inj _).mp whole)
  rcases List.eq_nil_or_concat' names with rfl | ⟨front, last, rfl⟩
  · rcases List.eq_nil_or_concat' others with rfl | ⟨front, last, rfl⟩
    · rfl
    · exact absurd same (apart alsoAre)
  · rcases List.eq_nil_or_concat' others with rfl | ⟨others, other, rfl⟩
    · exact absurd same.symm (apart are)
    · rw [inner_ofNames_append are parts, inner_ofNames_append alsoAre parts, List.append_cons,
        List.append_cons (others.map _)] at same
      obtain ⟨fronts, ends⟩ := List.append_inj' (List.append_cancel_right same) rfl
      have lasts := Component.name.inj (List.cons.inj ends).1
      rw [List.map_injective_iff.mpr (fun _ _ => Component.name.inj) fronts, (String.append_left_inj _).mp lasts]

/-- Different normal paths stay different below a directory and in front of a suffix. -/
theorem IsNormal.eq_of_join_append {base path other suffix : String} (normal : IsNormal path)
    (alsoNormal : IsNormal other)
    (same : components (join base path ++ suffix) = components (join base other ++ suffix)) : path = other := by
  obtain ⟨names, are, rfl⟩ := normal
  obtain ⟨others, alsoAre, rfl⟩ := alsoNormal
  have behind := inner_congr same
  rw [inner_join_append (isAbsolute_ofNames are), inner_join_append (isAbsolute_ofNames alsoAre)] at behind
  rw [names_eq_of_inner_append are alsoAre (List.append_cancel_left behind)]

end BindingRepair.Path
