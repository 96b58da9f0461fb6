/-
# Managed paths

The form in which a path of the source tree is kept. All texts for one file have the same form, and in it the
path leads to nowhere but the source tree.
-/

import BindingRepair.Intake
import BindingRepair.Proofs.Components

namespace BindingRepair

namespace Path

/-- The components of a path without the dot at its beginning. -/
def bare (path : String) : List Component :=
  (components path).filter (· ≠ .here)

@[simp] theorem filter_inner (path : String) : (inner path).filter (· ≠ .here) = inner path :=
  List.filter_eq_self.mpr fun _ here => decide_eq_true (of_mem_inner here).2

/-- Apart from the dot at its beginning a path is told by its segments and by whether it is absolute. -/
theorem bare_eq (path : String) : bare path = (if isAbsolute path then [.root] else []) ++ inner path := by
  rw [bare, components_eq, List.filter_append, filter_inner, lead]
  split
  · rfl
  · split <;> rfl

theorem components_of_isAbsolute {path : String} (absolute : isAbsolute path = true) :
    components path = bare path := by
  rw [bare_eq, components_eq, lead, if_pos absolute, if_pos absolute]

theorem bare_of_relative {path : String} (relative : isAbsolute path = false) : bare path = inner path := by
  rw [bare_eq, relative, if_neg Bool.false_ne_true, List.nil_append]

/-! ### Texts for one path -/

/-- The texts differ in a slash or dot that separates nothing. -/
inductive Respells : String → String → Prop
  | repeatedSlash (front behind : String) : Respells (front ++ "/" ++ behind) (front ++ "/" ++ "/" ++ behind)
  | innerDot (front behind : String) : Respells (front ++ "/" ++ behind) (front ++ "/." ++ "/" ++ behind)
  | leadingDot {path : String} (relative : isAbsolute path = false) : Respells path ("." ++ "/" ++ path)
  | trailingSlash {path : String} (nonempty : path ≠ "") : Respells path (path ++ "/")

theorem isAbsolute_append {front : String} (nonempty : front ≠ "") (behind : String) :
    isAbsolute (front ++ behind) = isAbsolute front := by
  rw [isAbsolute, isAbsolute, String.toList_append]
  cases chars : front.toList with
  | nil => exact absurd (String.toList_eq_nil_iff.mp chars) nonempty
  | cons c cs => rfl

theorem inner_trailing (front : String) : inner (front ++ "/") = inner front := by
  have parts := inner_slash front ""
  rwa [String.append_empty, inner_empty, List.append_nil] at parts

/-- Such texts have the same components. -/
theorem Respells.same {path other : String} (respells : Respells path other) :
    isAbsolute path = isAbsolute other ∧ inner path = inner other := by
  have slash (front : String) : front ++ "/" ≠ "" := by simp
  cases respells with
  | repeatedSlash front behind =>
      refine ⟨?_, by rw [inner_slash, inner_slash, inner_trailing]⟩
      rw [isAbsolute_append (slash front), isAbsolute_append (slash (front ++ "/")), isAbsolute_append (slash front)]
  | innerDot front behind =>
      have dot : inner (front ++ "/.") = inner front := by
        have parts := inner_slash front "."
        rw [String.append_assoc] at parts
        exact parts.trans (List.append_nil _)
      have same : front ++ "/." ++ "/" ++ behind = front ++ "/" ++ ("./" ++ behind) := by
        simp [← String.toList_inj]
      refine ⟨?_, by rw [inner_slash, inner_slash, dot]⟩
      rw [same, isAbsolute_append (slash front), isAbsolute_append (slash front)]
  | leadingDot relative =>
      rw [inner_slash, relative, String.append_assoc, isAbsolute_append (by decide)]
      exact ⟨rfl, rfl⟩
  | trailingSlash nonempty =>
      exact ⟨(isAbsolute_append nonempty _).symm, (inner_trailing _).symm⟩

end Path

open Path

namespace IntakeOptions

variable {o : IntakeOptions} {path other : String} {names : List String}

/-- Where a path leads to from the root of the repository. -/
def place (o : IntakeOptions) (path : String) : List Component :=
  bare (join o.repoRoot path)

/-- The names of a path follow the root of the repository, if the path begins at the root of the file system,
and are all of its components otherwise. -/
theorem relativeNames?_eq_some_iff : o.relativeNames? path = some names ↔
    if isAbsolute path then components path = components o.repoRoot ++ names.map .name
    else bare path = names.map .name := by
  unfold relativeNames?
  split
  · next absolute =>
    have plain {front rest : List Component} (parts : front ++ rest = components path) :
        rest.filter (· ≠ .here) = rest := by
      refine List.filter_eq_self.mpr fun part here => ?_
      have inPath : part ∈ bare path := by
        rw [← components_of_isAbsolute absolute, ← parts]
        exact List.mem_append_right _ here
      exact (List.mem_filter.mp inPath).2
    simp only [bind, Option.bind_eq_some_iff, below?, List.isPrefixOf?_eq_some_iff_append_eq, names?_eq_some_iff]
    constructor
    · rintro ⟨rest, parts, same⟩
      rw [← parts, ← same, plain parts]
    · intro parts
      exact ⟨_, parts.symm, plain parts.symm⟩
  · exact names?_eq_some_iff

theorem isName_of_relativeNames? (found : o.relativeNames? path = some names) : ∀ name ∈ names, IsName name := by
  intro name listed
  have inNames : .name name ∈ names.map Component.name := List.mem_map_of_mem listed
  have inPath : .name name ∈ components path := by
    rw [relativeNames?_eq_some_iff] at found
    split at found
    · rw [found]
      exact List.mem_append_right _ inNames
    · exact (List.mem_filter.mp (found ▸ inNames : .name name ∈ bare path)).1
  exact isName_of_mem_components inPath

/-- A path leads to where its names lead from the root of the repository. -/
theorem place_of_relativeNames? (found : o.relativeNames? path = some names) :
    o.place path = bare o.repoRoot ++ names.map .name := by
  have plain : (names.map Component.name).filter (· ≠ .here) = names.map .name :=
    List.filter_eq_self.mpr fun part here => by
      obtain ⟨name, -, rfl⟩ := List.mem_map.mp here
      rfl
  rw [relativeNames?_eq_some_iff] at found
  unfold place
  split at found
  · next absolute =>
    rw [join, absolute, Bool.true_or, if_pos rfl, bare, found, List.filter_append, plain]
    rfl
  · next relative =>
    rw [Bool.not_eq_true] at relative
    by_cases empty : o.repoRoot = ""
    · rw [empty, join, if_pos (by simp), found]
      rfl
    · rw [bare, components_join empty relative, List.filter_append, filter_inner, ← bare_of_relative relative, found]
      rfl

/-- The names of a path are its names again. -/
theorem relativeNames?_ofNames (are : ∀ name ∈ names, IsName name) : o.relativeNames? (ofNames names) = some names := by
  rw [relativeNames?_eq_some_iff, if_neg (Bool.eq_false_iff.mp (isAbsolute_ofNames are)), bare,
    components_ofNames are, List.filter_eq_self]
  intro part here
  obtain ⟨name, -, rfl⟩ := List.mem_map.mp here
  rfl

theorem managedNames?_eq_some_iff : o.managedNames? path = some names ↔
    o.relativeNames? path = some names ∧ ∃ tree, bare o.sourceRoot = tree.map .name ∧ tree <+: names := by
  simp only [managedNames?, bind, Option.bind_eq_some_iff, names?_eq_some_iff, Option.ite_none_right_eq_some,
    List.isPrefixOf_iff_prefix, Option.some.injEq]
  constructor
  · rintro ⟨found, relative, tree, root, starts, rfl⟩
    exact ⟨relative, tree, root, starts⟩
  · rintro ⟨relative, tree, root, starts⟩
    exact ⟨names, relative, tree, root, starts, rfl⟩

theorem isName_of_managedNames? (found : o.managedNames? path = some names) : ∀ name ∈ names, IsName name :=
  isName_of_relativeNames? (managedNames?_eq_some_iff.mp found).1

theorem place_of_managedNames? (found : o.managedNames? path = some names) :
    o.place path = bare o.repoRoot ++ names.map .name :=
  place_of_relativeNames? (managedNames?_eq_some_iff.mp found).1

/-- The kept form of a path keeps its names. -/
theorem managedNames?_ofNames (found : o.managedNames? path = some names) :
    o.managedNames? (ofNames names) = some names := by
  have ⟨relative, inTree⟩ := managedNames?_eq_some_iff.mp found
  exact managedNames?_eq_some_iff.mpr ⟨relativeNames?_ofNames (isName_of_relativeNames? relative), inTree⟩

/-- Two paths lead to one place if and only if they have the same names. -/
theorem place_eq_iff {others : List String} (found : o.managedNames? path = some names)
    (foundToo : o.managedNames? other = some others) : o.place path = o.place other ↔ names = others := by
  rw [place_of_managedNames? found, place_of_managedNames? foundToo, List.append_cancel_left_eq,
    (List.map_injective_iff.mpr fun _ _ => Component.name.inj).eq_iff]

theorem place_ofNames (found : o.managedNames? path = some names) : o.place (ofNames names) = o.place path :=
  (place_eq_iff (managedNames?_ofNames found) found).mpr rfl

theorem exists_managedNames? {managed : String} (found : o.managedPath? path = some managed) :
    ∃ names, o.managedNames? path = some names ∧ ofNames names = managed :=
  Option.map_eq_some_iff.mp found

theorem managedPath?_ofNames (found : o.managedNames? path = some names) :
    o.managedPath? (ofNames names) = some (ofNames names) := by
  rw [managedPath?, managedNames?_ofNames found]
  rfl

/-- Slashes and dots that separate nothing do not count. -/
theorem managedPath?_of_respells (respells : Respells path other) : o.managedPath? path = o.managedPath? other := by
  have ⟨absolute, same⟩ := respells.same
  have sameBare : bare path = bare other := by rw [bare_eq, bare_eq, absolute, same]
  have relative : o.relativeNames? path = o.relativeNames? other := by
    refine Option.ext fun names => ?_
    rw [relativeNames?_eq_some_iff, relativeNames?_eq_some_iff, ← absolute, ← sameBare]
    split
    · next absolute' =>
      have otherAbsolute : isAbsolute other = true := absolute.symm.trans absolute'
      rw [components_of_isAbsolute absolute', components_of_isAbsolute otherAbsolute, sameBare]
    · rfl
  rw [managedPath?, managedPath?, managedNames?, managedNames?, relative]

/-- A path in kept form: names with a slash between any two of them, which begin with those of the source tree.
Below the root of the repository it leads to a place below that root. -/
structure Confines (o : IntakeOptions) (path : String) : Prop where
  relative : isAbsolute path = false
  names : ∃ names, (∀ name ∈ names, IsName name) ∧ path = ofNames names ∧ components path = names.map .name
  inTree : ∃ tree, names? (components o.sourceRoot) = some tree ∧ tree.map .name <+: components path
  below : components (join o.repoRoot path) = components o.repoRoot ++ components path

theorem confines_of_managedNames? (found : o.managedNames? path = some names) : o.Confines (ofNames names) := by
  have are := isName_of_managedNames? found
  have relative := isAbsolute_ofNames are
  have parts := components_ofNames are
  obtain ⟨-, tree, root, starts⟩ := managedNames?_eq_some_iff.mp found
  refine ⟨relative, ⟨names, are, rfl, parts⟩, ⟨tree, names?_eq_some_iff.mpr root, ?_⟩, ?_⟩
  · rw [parts]
    exact starts.map _
  · by_cases empty : o.repoRoot = ""
    · rw [empty, join, if_pos (by simp)]
      rfl
    · have inner_eq : inner (ofNames names) = components (ofNames names) := by
        rw [← bare_of_relative relative, bare, parts, List.filter_eq_self]
        intro part here
        obtain ⟨name, -, rfl⟩ := List.mem_map.mp here
        rfl
      rw [components_join empty relative, inner_eq]

end IntakeOptions

end BindingRepair
