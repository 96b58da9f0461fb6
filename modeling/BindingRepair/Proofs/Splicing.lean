/-
# Printing is a splice

An edited tree is printed by copying its source but for a few stretches: the names of renamed bindings, and
the braces of imports without names that get some. Every binding that was renamed and every node that is
not in the source is written in exactly one place.
-/

import BindingRepair.Proofs.Accounts
import BindingRepair.Proofs.Pieces
import Mathlib.Data.List.Forall2
import Mathlib.Data.List.Perm.Basic

namespace BindingRepair.Script

open Text

/-! ### Names in texts -/

/-- The name stands somewhere in the text. -/
def StandsIn (name text : String) : Prop :=
  name.toList <:+: text.toList

namespace StandsIn

variable {name text : String}

theorem self (name : String) : StandsIn name name :=
  List.infix_refl _

theorem left (stands : StandsIn name text) (behind : String) : StandsIn name (text ++ behind) := by
  rw [StandsIn, String.toList_append]
  exact stands.trans (List.prefix_append _ _).isInfix

theorem right (stands : StandsIn name text) (front : String) : StandsIn name (front ++ text) := by
  rw [StandsIn, String.toList_append]
  exact stands.trans (List.suffix_append _ _).isInfix

theorem join {texts : List String} (stands : StandsIn name text) (here : text ∈ texts) :
    StandsIn name (String.join texts) := by
  obtain ⟨front, behind, rfl⟩ := List.append_of_mem here
  rw [StandsIn, String.toList_join, List.flatMap_append, List.flatMap_cons, ← List.append_assoc]
  exact stands.trans (List.infix_append _ _ _)

theorem intercalate (separator : String) {texts : List String} (here : name ∈ texts) :
    StandsIn name (separator.intercalate texts) := by
  rw [StandsIn, String.toList_intercalate]
  induction texts with
  | nil => cases here
  | cons first texts ih =>
      cases texts with
      | nil =>
          rw [List.mem_singleton.mp here]
          simp [List.intercalate]
      | cons second texts =>
          rw [List.map_cons, List.map_cons, List.intercalate_cons_cons]
          rcases List.mem_cons.mp here with rfl | later
          · rw [List.append_assoc]
            exact (List.prefix_append _ _).isInfix
          · exact (ih later).trans (List.suffix_append _ _).isInfix

end StandsIn

theorem standsIn_bracedNames {name : String} {names : List String} (here : name ∈ names) :
    StandsIn name (Tree.bracedNames names) :=
  ((StandsIn.intercalate ", " here).right _).left _

theorem standsIn_specifiersText (t : Tree) (opening : Nat) (last : ImportSpecifier) {name : String}
    {names : List String} (here : name ∈ names) : StandsIn name (t.specifiersText opening last names) :=
  StandsIn.join ((StandsIn.self name).right _) (List.mem_map_of_mem here)

theorem standsIn_renamedText (site : BindingSite) (oldName name : String) :
    StandsIn name (Tree.renamedText site oldName name) := by
  unfold Tree.renamedText
  split
  · exact (StandsIn.self name).right _
  · split
    · exact (StandsIn.self name).right _
    · exact .self name

/-! ### What patches record -/

/-- What a patch is for when the tree `t` that was read has become `u`, and the nodes that it writes. -/
inductive Patch.Records (t u : Tree) (p : Patch) (nodes : List NodeId) : Prop
  /-- For the whole of a binding that was read its new name is written, behind the old one where that is
  the key of a property or the name of an export. -/
  | renamed (id : NodeId) (i j : IdentifierNode) (site : BindingSite) (was : t.identifier? id = some i)
      (now : u.identifier? id = some j) (binds : i.site? = some site) (span : p.span = t.spanOf id)
      (text : p.text = Tree.renamedText site i.name j.name) (all : nodes = [id])
  /-- Names are written behind the last that an import has in braces. -/
  | specifiers (id : NodeId) (i : ImportNode) (added : List NodeId) (named : NamedImports)
      (last : ImportSpecifier) (was : (id, i) ∈ t.imports) (now : u.import? id = some { i with added })
      (braces : i.named = some named) (behind : named.specifiers.getLast? = some last)
      (span : p.span = Span.emptyAt last.span.stop)
      (text : p.text = u.specifiersText named.opening last (added.filterMap u.name?)) (all : nodes = added)
  /-- For braces with nothing in them braces with names are written. -/
  | braces (id : NodeId) (i : ImportNode) (added : List NodeId) (named : NamedImports)
      (was : (id, i) ∈ t.imports) (now : u.import? id = some { i with added })
      (braces : i.named = some named) (none : named.specifiers = [])
      (span : p.span = ⟨named.opening, named.closing + 1⟩)
      (text : p.text = Tree.bracedNames (added.filterMap u.name?)) (all : nodes = added)
  /-- Names in braces are written behind the name that an import without braces has. -/
  | clause (id : NodeId) (i : ImportNode) (added : List NodeId) (name : NodeId)
      (was : (id, i) ∈ t.imports) (now : u.import? id = some { i with added })
      (bare : i.named = none) (default : i.defaultName = some name)
      (span : p.span = Span.emptyAt (t.spanOf name).stop)
      (text : p.text = ", " ++ Tree.bracedNames (added.filterMap u.name?)) (all : nodes = added)
  /-- A declaration of its own is written. -/
  | declaration (i : Insertion) (listed : i ∈ u.insertions) (new : t.size ≤ i.node.index)
      (span : p.span = Span.emptyAt i.offset) (text : p.text = i.lead ++ u.synthesizedText i.node ++ i.trail)
      (all : nodes = i.node :: u.namedBy i.node)

namespace Tree

variable {t u : Tree}

/-- The patches of all edits, not in the order of the source. -/
def allPatches (t : Tree) : List Patch :=
  t.nodes.toList.filterMap renamePatch? ++ t.imports.filterMap (fun x => t.importPatch? x.1 x.2) ++
    t.insertions.map t.insertionPatch

theorem patches_eq (t : Tree) : t.patches = t.allPatches.mergeSort Patch.precedes :=
  rfl

/-- The patches of renamed bindings, with the bindings. -/
def renamings (t : Tree) : List (Patch × List NodeId) :=
  t.nodes.toList.zipIdx.filterMap fun x => (renamePatch? x.1).map (·, [⟨x.2⟩])

/-- The patches of imports that names have been added to, with the names. -/
def additions (t : Tree) : List (Patch × List NodeId) :=
  t.imports.filterMap fun x => (t.importPatch? x.1 x.2).map (·, x.2.added)

/-- The patches of insertions, with the declarations that are inserted. -/
def declarations (t : Tree) : List (Patch × List NodeId) :=
  t.insertions.map fun i => (t.insertionPatch i, i.node :: t.namedBy i.node)

/-- The bindings that are printed under another name. -/
def renamedNodes (t : Tree) : List NodeId :=
  (t.nodes.toList.zipIdx.filter fun x => (renamePatch? x.1).isSome).map fun x => ⟨x.2⟩

theorem mem_renamedNodes {id : NodeId} :
    id ∈ t.renamedNodes ↔ ∃ n, t.node? id = some n ∧ (renamePatch? n).isSome = true := by
  simp only [renamedNodes, List.mem_map, List.mem_filter, List.mem_zipIdx_iff_getElem?, Array.getElem?_toList]
  constructor
  · rintro ⟨⟨n, index⟩, ⟨found, due⟩, rfl⟩
    exact ⟨n, found, due⟩
  · rintro ⟨n, found, due⟩
    exact ⟨(n, id.index), ⟨found, due⟩, rfl⟩

theorem nodup_renamedNodes (t : Tree) : t.renamedNodes.Nodup := by
  have indices : (t.nodes.toList.zipIdx.map (·.2)).Nodup := by
    rw [List.zipIdx_map_snd]
    exact List.nodup_range'
  have some : ((t.nodes.toList.zipIdx.filter fun x => (renamePatch? x.1).isSome).map (·.2)).Nodup :=
    indices.sublist (List.filter_sublist.map _)
  have all := some.map (f := NodeId.mk) fun _ _ same => NodeId.mk.inj same
  rwa [List.map_map] at all

theorem flatMap_renamings (t : Tree) : t.renamings.flatMap (·.2) = t.renamedNodes := by
  unfold renamings renamedNodes
  induction t.nodes.toList.zipIdx with
  | nil => rfl
  | cons x rest ih =>
      cases due : renamePatch? x.1 with
      | none => simpa [due] using ih
      | some p => simpa [due] using ih

/-- All patches in their order, with the nodes that they write. -/
theorem exists_labelled (t : Tree) : ∃ labelled : List (Patch × List NodeId),
    labelled.map (·.1) = t.patches ∧ labelled.Perm (t.renamings ++ t.additions ++ t.declarations) := by
  have first : t.renamings.map (·.1) = t.nodes.toList.filterMap renamePatch? := by
    conv_rhs => rw [← List.zipIdx_map_fst 0 t.nodes.toList]
    rw [renamings, List.map_filterMap, List.filterMap_map]
    apply List.filterMap_congr
    intro x _
    dsimp only [Function.comp]
    cases renamePatch? x.1 with
    | none => rfl
    | some p => rfl
  have second : t.additions.map (·.1) = t.imports.filterMap fun x => t.importPatch? x.1 x.2 := by
    rw [additions, List.map_filterMap]
    apply List.filterMap_congr
    intro x _
    cases t.importPatch? x.1 x.2 with
    | none => rfl
    | some p => rfl
  have third : t.declarations.map (·.1) = t.insertions.map t.insertionPatch := by
    rw [declarations, List.map_map]
    rfl
  have sorted : t.patches.Perm ((t.renamings ++ t.additions ++ t.declarations).map (·.1)) := by
    rw [List.map_append, List.map_append, first, second, third, patches_eq]
    exact List.mergeSort_perm _ _
  have pairs : List.Forall₂ (fun p (entry : Patch × List NodeId) => p = entry.1)
      ((t.renamings ++ t.additions ++ t.declarations).map (·.1)) (t.renamings ++ t.additions ++ t.declarations) := by
    rw [List.forall₂_map_left_iff]
    exact List.forall₂_same.mpr fun _ _ => rfl
  obtain ⟨labelled, same, perm⟩ := List.perm_comp_forall₂ sorted pairs
  refine ⟨labelled, ?_, perm⟩
  clear sorted pairs perm first second third
  generalize t.patches = patches at same
  induction same with
  | nil => rfl
  | cons first _ ih => rw [List.map_cons, ih, first]

/-- When a binding is printed under another name. -/
theorem renamePatch?_eq_some_iff {n : Node} {p : Patch} : renamePatch? n = some p ↔
    ∃ i oldName site, n.kind = .identifier i ∧ i.renamedFrom = some oldName ∧ i.site? = some site ∧
      i.synthesized = false ∧ n.span.isEmpty = false ∧ p = ⟨n.span, renamedText site oldName i.name⟩ := by
  unfold renamePatch?
  constructor
  · intro due
    split at due
    · rename_i i kind
      obtain ⟨oldName, renamed, due⟩ := Option.bind_eq_some_iff.mp due
      obtain ⟨site, binds, due⟩ := Option.bind_eq_some_iff.mp due
      split at due
      · cases due
      · rename_i inText
        rw [Bool.not_eq_true, Bool.or_eq_false_iff] at inText
        exact ⟨i, oldName, site, kind, renamed, binds, inText.1, inText.2, (Option.some.inj due).symm⟩
    · cases due
  · rintro ⟨i, oldName, site, kind, renamed, binds, inText, solid, rfl⟩
    simp [kind, renamed, binds, inText, solid]

/-- When an import is printed with more names, and where they stand. -/
theorem importPatch?_cases {id : NodeId} {i : ImportNode} {p : Patch} (due : t.importPatch? id i = some p) :
    (t.spanOf id).isEmpty = false ∧
      ((∃ named last, i.named = some named ∧ named.specifiers.getLast? = some last ∧
          p = ⟨Span.emptyAt last.span.stop, t.specifiersText named.opening last (i.added.filterMap t.name?)⟩) ∨
        (∃ named, i.named = some named ∧ named.specifiers = [] ∧
          p = ⟨⟨named.opening, named.closing + 1⟩, bracedNames (i.added.filterMap t.name?)⟩) ∨
        ∃ name, i.named = none ∧ i.defaultName = some name ∧
          p = ⟨Span.emptyAt (t.spanOf name).stop, ", " ++ bracedNames (i.added.filterMap t.name?)⟩) := by
  unfold importPatch? at due
  dsimp only at due
  split at due
  · cases due
  rename_i given
  rw [Bool.not_eq_true, Bool.or_eq_false_iff] at given
  refine ⟨given.2, ?_⟩
  cases braces : i.named with
  | some named =>
      rw [braces] at due
      dsimp only at due
      cases behind : named.specifiers.getLast? with
      | some last =>
          rw [behind] at due
          exact .inl ⟨named, last, rfl, behind, (Option.some.inj due).symm⟩
      | none =>
          rw [behind] at due
          exact .inr (.inl ⟨named, rfl, List.getLast?_eq_none_iff.mp behind, (Option.some.inj due).symm⟩)
  | none =>
      cases default : i.defaultName with
      | some name =>
          rw [braces, default] at due
          exact .inr (.inr ⟨name, rfl, rfl, (Option.some.inj due).symm⟩)
      | none =>
          rw [braces, default] at due
          cases due

namespace Descends

variable (descends : t.Descends u)
include descends

/-- The nodes that have a name are written with it. -/
theorem standsIn_of_records {p : Patch} {nodes : List NodeId} (records : p.Records t u nodes) {id : NodeId}
    (here : id ∈ nodes) {name : String} (named : u.name? id = some name) : StandsIn name p.text := by
  have listed {added : List NodeId} (here : id ∈ added) : name ∈ added.filterMap u.name? :=
    List.mem_filterMap.mpr ⟨id, here, named⟩
  cases records with
  | renamed id' i j site was now binds span text all =>
      rw [all, List.mem_singleton] at here
      subst here
      rw [name?, now, Option.map_some, Option.some.injEq] at named
      rw [text, ← named]
      exact standsIn_renamedText site i.name j.name
  | specifiers id' i added _ last was now braces behind span text all =>
      rw [text]
      exact standsIn_specifiersText u _ last (listed (all ▸ here))
  | braces id' i added _ was now braces none span text all =>
      rw [text]
      exact standsIn_bracedNames (listed (all ▸ here))
  | clause id' i added _ was now bare default span text all =>
      rw [text]
      exact (standsIn_bracedNames (listed (all ▸ here))).right _
  | declaration i inserted new span text all =>
      rw [text]
      refine StandsIn.left (StandsIn.right ?_ _) _
      obtain ⟨outside, kind, found, plain⟩ := descends.declared i inserted
      rw [all] at here
      rcases List.mem_cons.mp here with rfl | inner
      · obtain ⟨j, isIdentifier, -⟩ := Option.map_eq_some_iff.mp named
        obtain ⟨n, node, isIdentifier⟩ := identifier?_eq_some_iff.mp isIdentifier
        rw [kind?, node, Option.map_some, Option.some.injEq] at found
        rw [← found, isIdentifier] at plain
        cases plain
      · rw [namedBy, found, Option.map_some, Option.getD_some] at inner
        unfold synthesizedText
        rw [found]
        cases descends.new _ kind outside found with
        | identifier j => cases plain
        | importDeclaration source added =>
            have inside := standsIn_bracedNames (listed (show id ∈ added from inner))
            exact (((((inside.right _).left _).left _).left _).left _).left _
        | synthesized d =>
            cases d with
            | state value setter callee =>
                rcases List.mem_cons.mp inner with rfl | inner
                · simp only [named, Option.getD_some]
                  exact (((((((StandsIn.self name).right _).left _).left _).left _).left _).left _).left _
                · rw [List.mem_singleton] at inner
                  subst inner
                  simp only [named, Option.getD_some]
                  exact (((((StandsIn.self name).right _).left _).left _).left _).left _
            | null value =>
                rw [NodeKind.named, List.mem_singleton] at inner
                subst inner
                simp only [named, Option.getD_some]
                exact (((StandsIn.self name).right _).left _).left _

variable (pristine : t.IsPristine)
include pristine

/-- A binding that is printed under another name is one that was read. -/
theorem records_renaming {id : NodeId} {n : Node} (found : u.node? id = some n) {p : Patch}
    (due : renamePatch? n = some p) : id.index < t.size ∧ isRenamed n = true ∧ p.Records t u [id] := by
  obtain ⟨j, oldName, site, kind, renamed, binds, inText, -, rfl⟩ := renamePatch?_eq_some_iff.mp due
  have old : id.index < t.size := by
    by_contra outside
    cases descends.new id _ (Nat.le_of_not_lt outside) (by rw [kind?, found, Option.map_some, kind]) with
    | identifier _ synthesized => exact absurd (synthesized.symm.trans inText) Bool.noConfusion
  refine ⟨old, by simp [isRenamed, kind, renamed], ?_⟩
  obtain ⟨m, first, becomes, same, before⟩ := descends.exists_of_old found old
  rw [kind] at becomes
  generalize parsed : m.kind = was at becomes
  cases becomes with
  | same =>
      rw [(pristine.identifiers id m j first parsed).2.1] at renamed
      cases renamed
  | renamed i name =>
      obtain rfl := Option.some.inj renamed
      exact .renamed id i _ site (identifier?_eq_some_iff.mpr ⟨m, first, parsed⟩)
        (identifier?_eq_some_iff.mpr ⟨n, found, kind⟩) binds (same.trans before.symm) rfl rfl

/-- A renamed binding that was read is printed under its new name. -/
theorem isSome_renamePatch? {id : NodeId} {n : Node} (found : u.node? id = some n) (old : id.index < t.size)
    (renamed : isRenamed n = true) : (renamePatch? n).isSome = true := by
  obtain ⟨m, first, becomes, same, -⟩ := descends.exists_of_old found old
  unfold isRenamed at renamed
  cases kind : n.kind with
  | identifier j =>
      rw [kind] at becomes renamed
      generalize parsed : m.kind = was at becomes
      cases becomes with
      | same =>
          dsimp only at renamed
          rw [(pristine.identifiers id m j first parsed).2.1] at renamed
          cases renamed
      | renamed i name binds =>
          obtain ⟨solid, -, inText⟩ := pristine.identifiers id m i first parsed
          obtain ⟨site, binds⟩ := Option.isSome_iff_exists.mp binds
          rw [Option.isSome_iff_exists]
          refine ⟨_, renamePatch?_eq_some_iff.mpr ⟨_, i.name, site, kind, rfl, binds, inText, ?_, rfl⟩⟩
          rw [same, Span.isEmpty, beq_eq_false_iff_ne]
          exact Nat.ne_of_lt solid
  | _ =>
      rw [kind] at renamed
      cases renamed

/-- An import of the module that is in the source is one that was read, perhaps with more names. -/
theorem exists_import {id : NodeId} {i : ImportNode} (listed : (id, i) ∈ u.imports)
    (solid : (u.spanOf id).isEmpty = false) : id.index < t.size ∧
      ∃ j added, (id, j) ∈ t.imports ∧ i = { j with added } := by
  obtain ⟨topLevel, isImport⟩ := mem_imports.mp listed
  have old : id.index < t.size := by
    by_contra outside
    rw [descends.places.isEmpty id (Nat.le_of_not_lt outside)] at solid
    cases solid
  obtain ⟨-, j, added, first, rfl, -⟩ := descends.import_of_old pristine isImport old
  exact ⟨old, j, added, mem_imports.mpr ⟨descends.mem_topLevel_of_old topLevel old, first⟩, rfl⟩

/-- An import that is printed with more names is one that was read. -/
theorem records_addition {id : NodeId} {i : ImportNode} (listed : (id, i) ∈ u.imports) {p : Patch}
    (due : u.importPatch? id i = some p) : id.index < t.size ∧ p.Records t u i.added := by
  obtain ⟨solid, place⟩ := importPatch?_cases due
  obtain ⟨old, j, added, was, rfl⟩ := descends.exists_import pristine listed solid
  have isImport := (mem_imports.mp listed).2
  refine ⟨old, ?_⟩
  rcases place with ⟨named, last, braces, behind, rfl⟩ | ⟨named, braces, none, rfl⟩ | ⟨name, bare, default, rfl⟩
  · exact .specifiers id j added named last was isImport braces behind rfl rfl rfl
  · exact .braces id j added named was isImport braces none rfl rfl rfl
  · have known : name.index < t.size := by
      refine pristine.named id _ (import?_eq_some_iff.mp (mem_imports.mp was).2) name ?_
      simp [NodeKind.named, ImportNode.localNodes, show j.defaultName = some name from default]
    refine .clause id j added name was isImport bare default ?_ rfl rfl
    rw [← descends.places.spanOf name known]

/-- An import that was read is printed with the names that have been added to it. -/
theorem isSome_importPatch? {id : NodeId} {i : ImportNode} (isImport : u.import? id = some i)
    (old : id.index < t.size) (given : i.added ≠ []) : (u.importPatch? id i).isSome = true := by
  obtain ⟨solid, j, added, -, rfl, none | accepts⟩ := descends.import_of_old pristine isImport old
  · exact absurd none given
  unfold importPatch?
  dsimp only
  rw [if_neg (by simpa [solid] using given)]
  unfold ImportNode.acceptsNames at accepts
  cases braces : j.named with
  | some named =>
      dsimp only
      cases named.specifiers.getLast? with
      | some last => rfl
      | none => rfl
  | none =>
      cases default : j.defaultName with
      | some name => rfl
      | none => simp [braces, default] at accepts

/-! ### All patches -/

/-- Every patch records an edit. -/
theorem records_of_mem {entry : Patch × List NodeId} (here : entry ∈ u.renamings ++ u.additions ++ u.declarations) :
    entry.1.Records t u entry.2 := by
  rcases List.mem_append.mp here with here | here
  · rcases List.mem_append.mp here with here | here
    · obtain ⟨⟨n, index⟩, listed, labels⟩ := List.mem_filterMap.mp here
      obtain ⟨p, due, rfl⟩ := Option.map_eq_some_iff.mp labels
      rw [List.mem_zipIdx_iff_getElem?, Array.getElem?_toList] at listed
      have found : u.node? ⟨index⟩ = some n := listed
      exact (descends.records_renaming pristine found due).2.2
    · obtain ⟨⟨id, i⟩, listed, labels⟩ := List.mem_filterMap.mp here
      obtain ⟨p, due, rfl⟩ := Option.map_eq_some_iff.mp labels
      exact (descends.records_addition pristine listed due).2
  · obtain ⟨i, listed, rfl⟩ := List.mem_map.mp here
    exact .declaration i listed (descends.declared i listed).1 rfl rfl rfl

/-- The ends of a patch are places in the source. -/
theorem on_of_records {p : Patch} {nodes : List NodeId} (records : p.Records t u nodes) :
    p.span.On (Cursor.start t.source) := by
  have empty {offset : Nat} (marks : (Cursor.start t.source).Marks offset) :
      (Span.emptyAt offset).On (Cursor.start t.source) :=
    ⟨marks, marks, Nat.le_refl _⟩
  have braced {id : NodeId} {i : ImportNode} {named : NamedImports} (was : (id, i) ∈ t.imports)
      (braces : i.named = some named) : named.Placed (Cursor.start t.source) :=
    pristine.placed id _ (import?_eq_some_iff.mp (mem_imports.mp was).2) named braces
  cases records with
  | renamed id i j site was now binds span =>
      obtain ⟨n, found, -⟩ := identifier?_eq_some_iff.mp was
      rw [span, Tree.spanOf, found]
      exact pristine.spans id n found
  | specifiers id i added named last was now braces behind span =>
      rw [span]
      exact empty ((braced was braces).specifiers last (List.mem_of_getLast? behind))
  | braces id i added named was now braces none span =>
      have placed := braced was braces
      rw [span]
      exact ⟨placed.opening, placed.closing.marks, Nat.le_succ_of_le placed.ordered⟩
  | clause id i added name was now bare default span =>
      have kind := import?_eq_some_iff.mp (mem_imports.mp was).2
      have known : name.index < t.size := by
        refine pristine.named id _ kind name ?_
        simp [NodeKind.named, ImportNode.localNodes, default]
      have found : t.node? name = some t.nodes[name.index] := Array.getElem?_eq_getElem known
      rw [span, Tree.spanOf, found]
      exact empty (pristine.spans name _ found).stop
  | declaration i listed new span =>
      rw [span]
      exact empty (descends.marks i listed)

/-! ### Nodes that are written -/

/-- What is printed of added names, import by import. -/
theorem flatMap_additions : u.additions.flatMap (·.2) =
    u.topLevel.flatMap fun id => if id.index < t.size then u.addedTo id else [] := by
  have each : ∀ ids : List NodeId, (∀ id ∈ ids, id ∈ u.topLevel) →
      ((ids.filterMap fun id => (u.import? id).map (id, ·)).filterMap
        fun x => (u.importPatch? x.1 x.2).map (·, x.2.added)).flatMap (·.2) =
      ids.flatMap fun id => if id.index < t.size then u.addedTo id else [] := by
    intro ids inside
    induction ids with
    | nil => rfl
    | cons id ids ih =>
        have others := ih fun other here => inside other (List.mem_cons_of_mem id here)
        rw [List.flatMap_cons, ← others]
        cases isImport : u.import? id with
        | none =>
            have none : u.addedTo id = [] := addedTo_eq_nil isImport
            simp [isImport, none]
        | some i =>
            have added : u.addedTo id = i.added := addedTo_of_import isImport
            cases due : u.importPatch? id i with
            | some p =>
                have listed := mem_imports.mpr ⟨inside id List.mem_cons_self, isImport⟩
                have old := (descends.records_addition pristine listed due).1
                simp [isImport, due, old, added]
            | none =>
                have none : (if id.index < t.size then u.addedTo id else []) = [] := by
                  split
                  · rename_i old
                    rw [added]
                    by_contra given
                    have some := descends.isSome_importPatch? pristine isImport old given
                    rw [due] at some
                    cases some
                  · rfl
                simp [isImport, due, none]
  exact each u.topLevel fun _ here => here

/-- The nodes of all patches are the bindings that were renamed and what is written elsewhere. -/
theorem flatMap_nodes : (u.renamings ++ u.additions ++ u.declarations).flatMap (·.2) =
    u.renamedNodes ++ (t.sites u).flatMap (u.writtenAt t.size) := by
  have inserted : u.declarations.flatMap (·.2) = (u.insertions.map (·.node)).flatMap (u.writtenAt t.size) := by
    rw [declarations, List.flatMap_map, List.flatMap_map]
    apply List.flatMap_congr
    intro i listed
    rw [writtenAt, if_neg (Nat.not_lt.mpr (descends.declared i listed).1)]
  have added : u.additions.flatMap (·.2) = t.topLevel.flatMap (u.writtenAt t.size) := by
    obtain ⟨imports, parts, inside⟩ := descends.topLevel
    have none : (imports.flatMap fun id => if id.index < t.size then u.addedTo id else []) = [] := by
      rw [List.flatMap_eq_nil_iff]
      intro id here
      obtain ⟨i, listed, rfl⟩ := List.mem_map.mp (inside id here)
      exact if_neg (Nat.not_lt.mpr (descends.declared i listed).1)
    rw [descends.flatMap_additions pristine, parts, List.flatMap_append, none, List.append_nil]
    apply List.flatMap_congr
    intro id here
    rw [writtenAt, if_pos (pristine.known id here), if_pos (pristine.known id here)]
  rw [List.flatMap_append, List.flatMap_append, added, inserted, List.append_assoc, ← List.flatMap_append, ← sites,
    flatMap_renamings]

/-- The bindings that were renamed are no new nodes. -/
theorem nodup_nodes : (u.renamedNodes ++ u.newSince t.size).Nodup := by
  have numbers : (List.range' t.size (u.size - t.size)).Nodup := List.nodup_range'
  rw [List.nodup_append]
  refine ⟨u.nodup_renamedNodes, numbers.map fun _ _ same => NodeId.mk.inj same, ?_⟩
  rintro a renamed b new rfl
  obtain ⟨n, found, due⟩ := mem_renamedNodes.mp renamed
  obtain ⟨p, due⟩ := Option.isSome_iff_exists.mp due
  exact absurd (descends.records_renaming pristine found due).1 (Nat.not_lt.mpr (mem_newSince.mp new).1)

/-- No node is written by two patches. -/
theorem nodup_flatMap_nodes : ((u.renamings ++ u.additions ++ u.declarations).flatMap (·.2)).Nodup := by
  obtain ⟨written, perm, sublist⟩ := descends.once
  have nodup := (descends.nodup_nodes pristine).sublist (sublist.append_left u.renamedNodes)
  rw [descends.flatMap_nodes pristine]
  exact (perm.append_left u.renamedNodes).nodup_iff.mp nodup

theorem mem_nodes {id : NodeId} : id ∈ u.renamedNodes ++ u.newSince t.size ↔
    (id.index < t.size ∧ ∃ n, u.node? id = some n ∧ isRenamed n = true) ∨
      t.size ≤ id.index ∧ id.index < u.size := by
  rw [List.mem_append, mem_renamedNodes, mem_newSince]
  apply or_congr_left
  constructor
  · rintro ⟨n, found, due⟩
    obtain ⟨p, due⟩ := Option.isSome_iff_exists.mp due
    obtain ⟨old, renamed, -⟩ := descends.records_renaming pristine found due
    exact ⟨old, n, found, renamed⟩
  · rintro ⟨old, n, found, renamed⟩
    exact ⟨n, found, descends.isSome_renamePatch? pristine found old renamed⟩

/-- The source is cut into pieces, one for each patch. -/
theorem exists_isCut {out : String} (printed : u.print = .ok out) : ∃ pieces last,
    IsCut (Cursor.start t.source) pieces last out.toList ∧
      (pieces.map fun p => (p.toPatch, p.nodes)).Perm (u.renamings ++ u.additions ++ u.declarations) := by
  obtain ⟨labelled, patches, perm⟩ := u.exists_labelled
  have on (entry : Patch × List NodeId) (here : entry ∈ labelled) : entry.1.span.On (Cursor.start t.source) :=
    descends.on_of_records pristine (descends.records_of_mem pristine (perm.mem_iff.mp here))
  have spliced : splice 0 t.source (labelled.map (·.1)) = .ok out.toList := by
    rw [patches, ← descends.source_eq]
    unfold print at printed
    cases result : splice 0 u.source u.patches with
    | error e =>
        rw [result] at printed
        cases printed
    | ok chars =>
        rw [result] at printed
        rw [← Except.ok.inj printed, String.toList_ofList]
  obtain ⟨pieces, last, isCut, same⟩ := Script.exists_isCut (.refl (Cursor.start t.source)) on spliced
  exact ⟨pieces, last, isCut, same ▸ perm⟩

end Descends

/-- The nodes of all patches are the bindings that were renamed and the new nodes. -/
theorem Accounts.perm_nodes (accounts : t.Accounts u) (pristine : t.IsPristine) :
    ((u.renamings ++ u.additions ++ u.declarations).flatMap (·.2)).Perm
      (u.renamedNodes ++ u.newSince t.size) := by
  rw [accounts.flatMap_nodes pristine]
  exact accounts.written.append_left _

/-- Where nothing has been edited there is nothing to splice in. -/
theorem print_of_not_isModified {u : Tree} (unmodified : u.isModified = false) :
    u.print = .ok (String.ofList u.source) := by
  rw [isModified, Bool.or_eq_false_iff, Bool.or_eq_false_iff, Bool.not_eq_false', List.isEmpty_iff] at unmodified
  obtain ⟨⟨insertions, imports⟩, nodes⟩ := unmodified
  have noRename : u.nodes.toList.filterMap renamePatch? = [] := by
    rw [List.filterMap_eq_nil_iff]
    intro n here
    cases due : renamePatch? n with
    | none => rfl
    | some p =>
        obtain ⟨i, oldName, site, kind, renamed, -⟩ := renamePatch?_eq_some_iff.mp due
        rw [← Array.any_toList, List.any_eq_false] at nodes
        exact absurd (by simp [isRenamed, kind, renamed]) (nodes n here)
  have noImport : (u.imports.filterMap fun x => u.importPatch? x.1 x.2) = [] := by
    rw [List.filterMap_eq_nil_iff]
    intro x here
    have none : x.2.added.isEmpty = true := by simpa using List.any_eq_false.mp imports x here
    simp [importPatch?, none]
  have none : u.patches = [] := by
    rw [patches_eq, allPatches, noRename, noImport, insertions]
    exact List.mergeSort_nil
  rw [print, none]
  rfl

/-- Where the patches are found in the order of the source, they are spliced in as they are. -/
theorem print_of_pairwise {u : Tree} (sorted : u.allPatches.Pairwise fun a b => a.precedes b = true)
    {out : List Char} (spliced : splice 0 u.source u.allPatches = .ok out) : u.print = .ok (String.ofList out) := by
  rw [print, patches_eq, List.mergeSort_of_pairwise sorted, spliced]
  rfl

end Tree

/-! ### The printed text -/

/-- Printing is a splice. When a parsed tree has been edited, with names added only to imports that are
statements of the module, its source is cut into pieces, of each of which a stretch is copied and another is
replaced by the text of one edit. A stretch that is not empty is the name of a renamed binding, or the
braces of an import that had none in them. Every renamed binding of the source and every node that is not in the
source is written by one piece, under its name. A tree without edits prints its source. -/
theorem print_is_splice {source : String} {dialect : Dialect} {t : Tree} (parsed : parse source dialect = .ok t)
    {edits : List Edit} (allowed : t.allowsAll edits = true) :
    let u := t.editAll edits
    (∀ out, u.print = .ok out → ∃ pieces last,
      IsCut (Cursor.start source.toList) pieces last out.toList ∧
      (∀ p ∈ pieces, p.Records t u p.nodes ∧
        ∀ id ∈ p.nodes, ∀ name, u.name? id = some name → StandsIn name p.text) ∧
      (pieces.flatMap (·.nodes)).Nodup ∧
      ∀ id, id ∈ pieces.flatMap (·.nodes) ↔
        (id.index < t.size ∧ ∃ n, u.node? id = some n ∧ Tree.isRenamed n = true) ∨
          t.size ≤ id.index ∧ id.index < u.size) ∧
    (u.isModified = false → u.print = .ok source) := by
  intro u
  have pristine := isPristine_of_parse parsed
  have accounts : t.Accounts u := pristine.accounts.editAll pristine edits allowed
  have text : u.source = source.toList := accounts.source_eq.trans (source_of_parse parsed).1
  refine ⟨fun out printed => ?_, fun unmodified => ?_⟩
  · obtain ⟨pieces, last, isCut, perm⟩ := accounts.exists_isCut pristine printed
    rw [(source_of_parse parsed).1] at isCut
    have nodes : (pieces.flatMap (·.nodes)).Perm (u.renamedNodes ++ u.newSince t.size) := by
      have labels := perm.flatMap_right (·.2)
      rw [List.flatMap_map] at labels
      exact labels.trans (accounts.perm_nodes pristine)
    refine ⟨pieces, last, isCut, fun p here => ?_, ?_, fun id => ?_⟩
    · have records : p.Records t u p.nodes :=
        accounts.records_of_mem pristine (perm.mem_iff.mp (List.mem_map_of_mem here))
      exact ⟨records, fun id inside name named => accounts.standsIn_of_records records inside named⟩
    · exact nodes.nodup_iff.mpr (accounts.nodup_nodes pristine)
    · exact nodes.mem_iff.trans (accounts.mem_nodes pristine)
  · rw [Tree.print_of_not_isModified unmodified, text, String.ofList_toList]

/-- A new variable in one function, a new name for the parameter of another, and one more imported name. -/
def scatteredEdits : List Edit :=
  [.declareNull ⟨9⟩ "y", .rename ⟨3⟩ "z", .addImportNames ⟨7⟩ ["d"]]

set_option maxRecDepth 100000 in
/-- The parameter keeps its old name as the key of a property. -/
theorem pieces_of_scattered_edits : ∃ t,
    parse "function f(\x7b c \x7d) \x7b return c \x7d import \x7b a \x7d from 'm'; function g() \x7b return 1 \x7d"
      .javascript = .ok t ∧ t.allowsAll scatteredEdits = true ∧
    ∃ pieces last, IsCut (Cursor.start
        "function f(\x7b c \x7d) \x7b return c \x7d import \x7b a \x7d from 'm'; function g() \x7b return 1 \x7d".toList)
      pieces last
      ("function f(\x7b c: z \x7d) \x7b return c \x7d import \x7b a, d \x7d from 'm'; " ++
        "function g() \x7b \n  let y = null\n  return 1 \x7d").toList ∧
      (∀ p ∈ pieces, p.Records t (t.editAll scatteredEdits) p.nodes) ∧ (pieces.flatMap (·.nodes)).Nodup := by
  obtain ⟨t, parsed, test⟩ := exists_ok_of_test
    (parse "function f(\x7b c \x7d) \x7b return c \x7d import \x7b a \x7d from 'm'; function g() \x7b return 1 \x7d"
      .javascript)
    (fun t => t.allowsAll scatteredEdits && decide
      ((t.editAll scatteredEdits).allPatches.Pairwise fun a b => a.precedes b = true) &&
      match splice 0 (t.editAll scatteredEdits).source (t.editAll scatteredEdits).allPatches with
      | .ok out => out == ("function f(\x7b c: z \x7d) \x7b return c \x7d import \x7b a, d \x7d from 'm'; " ++
        "function g() \x7b \n  let y = null\n  return 1 \x7d").toList
      | .error _ => false) (by decide +kernel)
  rw [Bool.and_eq_true, Bool.and_eq_true, decide_eq_true_eq] at test
  obtain ⟨⟨allowed, sorted⟩, result⟩ := test
  split at result
  · rename_i out spliced
    have printed := Tree.print_of_pairwise sorted spliced
    rw [beq_iff_eq.mp result, String.ofList_toList] at printed
    obtain ⟨pieces, last, isCut, records, nodup, -⟩ := (print_is_splice parsed allowed).1 _ printed
    exact ⟨t, parsed, allowed, pieces, last, isCut, fun p here => (records p here).1, nodup⟩
  · cases result

end BindingRepair.Script
