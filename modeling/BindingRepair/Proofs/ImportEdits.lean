/-
# What edits make of imports

The imports of the module change in three ways: an import gets more names, a new one comes behind the others, or
they stay what they are. What they bind is declared in the module. What has been added to them is written at one
place, so no node is bound by two imports or twice by one, and an import of the source accepts names after any edits
if it did before.
-/

import BindingRepair.Proofs.Entries
import BindingRepair.Proofs.Spacing
import Mathlib.Data.List.Pairwise

namespace BindingRepair.Script

/-- The import with more names. -/
def ImportNode.extend (i : ImportNode) (ids : List NodeId) : ImportNode :=
  { i with added := i.added ++ ids }

@[simp]
theorem ImportNode.extend_nil (i : ImportNode) : i.extend [] = i := by
  rw [extend, List.append_nil]

theorem ImportNode.extend_extend (i : ImportNode) (ids more : List NodeId) :
    (i.extend ids).extend more = i.extend (ids ++ more) := by
  rw [extend, extend, extend, List.append_assoc]

theorem ImportNode.localNodes_extend (i : ImportNode) (ids : List NodeId) :
    (i.extend ids).localNodes = i.localNodes ++ ids :=
  (List.append_assoc ..).symm

namespace Tree

variable {t u v w : Tree}

/-- The first import of a module, in source order, that names can be added to. -/
def acceptingImport? (t : Tree) (module : String) : Option NodeId :=
  t.topLevel.find? fun id => (t.import? id).any fun i => i.source == module && i.acceptsNames

/-- The identifiers that the imports bind. -/
def importLocals (t : Tree) : List NodeId :=
  t.imports.flatMap (·.2.localNodes)

/-- The imports of a module that have come since the tree had `size` nodes. -/
def importsSince (t : Tree) (size : Nat) (module : String) : List (NodeId × ImportNode) :=
  t.imports.filter fun entry => decide (size ≤ entry.1.index) && entry.2.source == module

theorem map_fst_imports (t : Tree) : t.imports.map (·.1) = t.topLevel.filter fun id => (t.import? id).isSome := by
  rw [imports, List.map_filterMap, ← List.filterMap_eq_filter]
  refine List.filterMap_congr fun id _ => ?_
  cases isImport : t.import? id with
  | none => simp [Option.guard, isImport]
  | some i => simp [Option.guard, isImport]

theorem imports_congr (topLevel : v.topLevel = u.topLevel)
    (same : ∀ id ∈ u.topLevel, v.import? id = u.import? id) : v.imports = u.imports := by
  rw [imports, imports, topLevel]
  exact List.filterMap_congr fun id here => by rw [same id here]

/-- The first import that meets a test, as the first statement that is such an import. -/
theorem map_find?_imports (t : Tree) (test : NodeId × ImportNode → Bool) :
    (t.imports.find? test).map (·.1) = t.topLevel.find? fun id => (t.import? id).any fun i => test (id, i) := by
  unfold imports
  induction t.topLevel with
  | nil => rfl
  | cons id ids ih =>
      rw [List.filterMap_cons, List.find?_cons]
      cases t.import? id with
      | none => exact ih
      | some i =>
          rw [Option.map_some, List.find?_cons, Option.any_some]
          cases test (id, i) with
          | true => rfl
          | false => exact ih

/-! ### Names that imports declare -/

theorem Grows.declaresIn (grows : Grows u v) {scope : ScopeId} {k : NodeId} (declares : DeclaresIn u.nodes scope k) :
    DeclaresIn v.nodes scope k := by
  obtain ⟨n, i, site, found, kind, role, inScope⟩ := declares
  obtain ⟨m, found', grown⟩ := grows.node k n found
  refine ⟨m, i, site, found', ?_, role, grown.scope.trans inScope⟩
  rcases grown.kind with same | ⟨inert, -⟩
  · exact same.trans kind
  · rw [kind] at inert
    cases inert

/-- A renamed binding stays declared where it was. -/
theorem declaresIn_rename {id k : NodeId} {name : String} {scope : ScopeId} (edited : u.rename id name = .ok v)
    (declares : DeclaresIn u.nodes scope k) : DeclaresIn v.nodes scope k := by
  obtain ⟨i, isIdentifier, -, rfl⟩ := rename_eq edited
  obtain ⟨n, j, site, found, kind, role, inScope⟩ := declares
  have changed := u.node?_modifyNode id k fun n => { n with kind := .identifier (i.renamed name) }
  have isNode : u.node? k = some n := found
  rw [isNode] at changed
  by_cases same : id = k
  · subst same
    obtain ⟨m, again, isFirst⟩ := identifier?_eq_some_iff.mp isIdentifier
    obtain rfl := Option.some.inj (isNode.symm.trans again)
    obtain rfl := NodeKind.identifier.inj (isFirst.symm.trans kind)
    exact ⟨_, _, site, changed.trans (if_pos rfl), rfl, role, inScope⟩
  · exact ⟨n, j, site, changed.trans (if_neg same), kind, role, inScope⟩

/-- A renamed binding is no statement of the module. -/
theorem imports_rename {id : NodeId} {name : String} (edited : u.rename id name = .ok v) :
    v.topLevel = u.topLevel ∧ v.imports = u.imports := by
  obtain ⟨i, isIdentifier, -, is⟩ := rename_eq edited
  have topLevel : v.topLevel = u.topLevel := by
    rw [is]
    exact childrenOf_modifyNode u id root fun _ => rfl
  refine ⟨topLevel, imports_congr topLevel fun other _ => ?_⟩
  rw [import?, kind?_rename isIdentifier edited]
  by_cases same : id = other
  · obtain ⟨n, found, kind⟩ := identifier?_eq_some_iff.mp isIdentifier
    rw [if_pos same, import?, kind?, ← same, found, Option.map_some, kind]
  · rw [if_neg same, import?]

theorem binds_of_declaresIn {k : NodeId} {scope : ScopeId} {name : String}
    (declares : DeclaresIn u.nodes scope k) (named : u.name? k = some name) : Binds u.nodes k scope name := by
  obtain ⟨n, i, site, found, kind, role, inScope⟩ := declares
  have isIdentifier : u.identifier? k = some i := identifier?_eq_some_iff.mpr ⟨n, found, kind⟩
  rw [name?, isIdentifier, Option.map_some, Option.some.injEq] at named
  have binds : i.site?.isSome = true := by rw [IdentifierNode.site?, role]; rfl
  exact ⟨n, found, (Node.bindsIn_iff kind binds _ _).mpr ⟨inScope.symm, named.symm⟩⟩

theorem declaresIn_addBinding (t : Tree) (parent : NodeId) (scope : ScopeId) (name : String) (kind : BindingKind) :
    DeclaresIn (t.addBinding parent scope name kind).2.nodes scope ⟨t.size⟩ := by
  let i : IdentifierNode := { name, role := .binding { kind }, synthesized := true }
  have found := t.node?_addNode (.identifier i) parent scope (t.spanOf parent).start ⟨t.size⟩
  exact ⟨_, i, { kind }, found.trans (if_pos rfl), rfl, rfl, rfl⟩

/-! ### Names added to an import -/

/-- Names have been added to an import: all nodes that have come are its, and declared in the module. -/
structure Extends (u v : Tree) (p : NodeId) (i : ImportNode) : Prop where
  grows : Grows u v
  size_le : u.size ≤ v.size
  topLevel : v.topLevel = u.topLevel
  reads : ∀ id, v.import? id = if id = p then some (i.extend (v.newSince u.size)) else u.import? id
  declared : ∀ k ∈ v.newSince u.size, DeclaresIn v.nodes moduleScope k

section Extends

variable {p : NodeId} {i : ImportNode}

theorem extends_refl (isImport : u.import? p = some i) : u.Extends u p i where
  grows := .refl u
  size_le := Nat.le_refl _
  topLevel := rfl
  reads id := by
    have none : u.newSince u.size = [] := by simp [newSince]
    split
    · next same => rw [same, isImport, none, ImportNode.extend_nil]
    · rfl
  declared k here := by simp [newSince] at here

theorem Extends.trans (first : u.Extends v p i) (second : v.Extends w p (i.extend (v.newSince u.size))) :
    u.Extends w p i where
  grows := first.grows.trans second.grows
  size_le := first.size_le.trans second.size_le
  topLevel := second.topLevel.trans first.topLevel
  reads id := by
    rw [second.reads, first.reads]
    split
    · rw [newSince_append v w first.size_le second.size_le, ImportNode.extend_extend]
    · rfl
  declared k here := by
    rw [newSince_append v w first.size_le second.size_le] at here
    rcases List.mem_append.mp here with old | new
    · exact second.grows.declaresIn (first.declared k old)
    · exact second.declared k new

theorem extends_addImportedName (known : root.index < u.size) (other : p ≠ root) (isImport : u.import? p = some i)
    (name : String) : u.Extends (u.addImportedName p name) p i := by
  have kinds := u.kind?_addImportedName p name isImport
  have size := u.size_addImportedName p name
  have new : (u.addImportedName p name).newSince u.size = [⟨u.size⟩] := by simp [newSince, size]
  exact {
    grows := u.grows_addImportedName p name
    size_le := size ▸ Nat.le_succ _
    topLevel := u.childrenOf_addImportedName p name known other
    reads := fun id => by
      rw [new]
      by_cases here : id = p
      · rw [if_pos here, import?_eq_some_iff, kinds, if_pos here]
        rfl
      · rw [if_neg here, import?, kinds, if_neg here]
        by_cases last : id.index = u.size
        · rw [if_pos last, import?, kind?, node?, Array.getElem?_eq_none (Nat.le_of_eq last.symm)]
          rfl
        · rw [if_neg last]
          rfl
    declared := fun k here => by
      obtain rfl := List.mem_singleton.mp (new ▸ here)
      obtain ⟨n, node, site, found, rest⟩ := u.declaresIn_addBinding p moduleScope name .imported
      have apart : p ≠ ⟨u.size⟩ := by
        rintro rfl
        exact Nat.lt_irrefl _ (lt_size_of_kind? (import?_eq_some_iff.mp isImport))
      exact ⟨n, node, site, (node?_modifyNode _ p ⟨u.size⟩ _).trans ((if_neg apart).trans found), rest⟩ }

theorem extends_foldl_addImportedName (known : root.index < u.size) (other : p ≠ root) (isImport : u.import? p = some i)
    (names : List String) : u.Extends (names.foldl (·.addImportedName p) u) p i := by
  induction names generalizing u i with
  | nil => exact extends_refl isImport
  | cons name names ih =>
      have first := extends_addImportedName known other isImport name
      refine first.trans (ih (known.trans_le first.size_le) ?_)
      rw [first.reads, if_pos rfl]

theorem Extends.imports (extended : u.Extends v p i) (isImport : u.import? p = some i) : v.imports =
    u.imports.map fun entry => (entry.1, entry.2.extend (if entry.1 = p then v.newSince u.size else [])) := by
  rw [Tree.imports, Tree.imports, extended.topLevel, List.map_filterMap]
  refine List.filterMap_congr fun id _ => ?_
  rw [extended.reads]
  by_cases same : id = p
  · simp [same, isImport]
  · cases u.import? id with
    | none => simp [same]
    | some j => simp [same]

end Extends

theorem imports_withImport (known : root.index < u.size) (old : ∀ id ∈ u.topLevel, id.index < u.size)
    (module : String) : (u.withImport module).imports = u.imports ++ [(⟨u.size⟩, { source := module })] := by
  have first : u.topLevel.filterMap (fun id => ((u.withImport module).import? id).map (id, ·)) = u.imports := by
    refine List.filterMap_congr fun id here => ?_
    rw [import?, kind?_withImport, if_neg (Nat.ne_of_lt (old id here))]
    rfl
  rw [imports, topLevel_withImport known, List.filterMap_append, first, List.filterMap_cons, import?_withImport]
  rfl

/-! ### What imports bind -/

/-- The statements of the module are different, and what its imports bind is declared in it. -/
structure ImportsDeclare (t : Tree) : Prop where
  nodup : t.topLevel.Nodup
  declared : ∀ id i, (id, i) ∈ t.imports → ∀ k ∈ i.localNodes, DeclaresIn t.nodes moduleScope k

namespace ImportsDeclare

theorem congr (declare : u.ImportsDeclare) (topLevel : v.topLevel = u.topLevel) (imports : v.imports = u.imports)
    (keeps : ∀ k, DeclaresIn u.nodes moduleScope k → DeclaresIn v.nodes moduleScope k) : v.ImportsDeclare where
  nodup := topLevel ▸ declare.nodup
  declared id i here k listed := keeps k (declare.declared id i (imports ▸ here) k listed)

theorem of_extends {p : NodeId} {i : ImportNode} (declare : u.ImportsDeclare) (extended : u.Extends v p i)
    (isImport : u.import? p = some i) : v.ImportsDeclare where
  nodup := extended.topLevel ▸ declare.nodup
  declared id j here k listed := by
    rw [extended.imports isImport] at here
    obtain ⟨⟨id, j⟩, before, ⟨⟩⟩ := List.mem_map.mp here
    rw [ImportNode.localNodes_extend, List.mem_append] at listed
    rcases listed with old | new
    · exact extended.grows.declaresIn (declare.declared id j before k old)
    · dsimp only at new
      split at new
      · exact extended.declared k new
      · cases new

theorem withImport (declare : u.ImportsDeclare) (known : root.index < u.size)
    (old : ∀ id ∈ u.topLevel, id.index < u.size) (module : String) : (u.withImport module).ImportsDeclare where
  nodup := by
    rw [topLevel_withImport known, List.nodup_append]
    refine ⟨declare.nodup, List.nodup_singleton _, ?_⟩
    rintro a first b last rfl
    exact Nat.lt_irrefl _ (List.mem_singleton.mp last ▸ old a first)
  declared id i here k listed := by
    rw [imports_withImport known old] at here
    rcases List.mem_append.mp here with before | new
    · exact (u.grows_addNode root moduleScope u.importPlace.1 rfl).declaresIn (declare.declared id i before k listed)
    · obtain ⟨rfl, rfl⟩ := Prod.mk.inj (List.mem_singleton.mp new)
      cases listed

end ImportsDeclare

/-- In a tree that was read the imports declare their names in the module. -/
theorem importsDeclare_of_parse {source : String} {dialect : Dialect} (parsed : parse source dialect = .ok t) :
    t.ImportsDeclare where
  nodup := (isPristine_of_parse parsed).nodup
  declared id i here k listed := by
    have laidOut := isLaidOut_of_parse parsed
    obtain ⟨n, found, kind, parent, -⟩ := laidOut.exists_of_mem_imports here
    exact (laidOut.imports _ n i found kind).declared n found parent k listed

namespace Accounts

variable (accounts : t.Accounts u) (pristine : t.IsPristine)
include accounts pristine

theorem lt_size_of_mem_topLevel {id : NodeId} (here : id ∈ u.topLevel) : id.index < u.size := by
  obtain ⟨kind, found⟩ := accounts.exists_kind_of_mem_sites pristine (accounts.mem_sites here)
  exact lt_size_of_kind? found

/-- Whatever names are added to an import, all that comes of it is that the import has them. -/
theorem extends_foldl {p : NodeId} {i : ImportNode} (isImport : u.import? p = some i) (names : List String) :
    u.Extends (names.foldl (·.addImportedName p) u) p i :=
  extends_foldl_addImportedName (accounts.root_lt pristine)
    (accounts.ne_root pristine (import?_eq_some_iff.mp isImport) fun _ => NodeKind.noConfusion) isImport names

/-- An import of the source stays in it. It has more names only if it accepts them. -/
theorem exists_import_of_old {id : NodeId} {i : ImportNode} (before : t.import? id = some i) :
    (u.spanOf id).isEmpty = false ∧
      ∃ added, u.import? id = some { i with added } ∧ (added = [] ∨ i.acceptsNames = true) := by
  have kind := import?_eq_some_iff.mp before
  obtain ⟨kind', found, becomes⟩ := accounts.becomes id _ kind
  obtain ⟨j, after⟩ : ∃ j, u.import? id = some j := by
    cases becomes with
    | same => exact ⟨i, import?_eq_some_iff.mpr found⟩
    | extended i added => exact ⟨{ i with added }, import?_eq_some_iff.mpr found⟩
  obtain ⟨solid, j, added, isImport, rfl, gains⟩ := accounts.import_of_old pristine after (lt_size_of_kind? kind)
  obtain rfl := Option.some.inj (before.symm.trans isImport)
  exact ⟨solid, added, after, gains⟩

/-- What names can be added to is told by the source alone: a new import is nowhere in it, and the others are what
they were but for the names that have been added. -/
theorem find?_openImport (module : String) : (u.topLevel.find? fun id => (u.import? id).any fun i =>
    i.source == module && i.acceptsNames && !(u.spanOf id).isEmpty) = t.acceptingImport? module := by
  obtain ⟨new, parts, inserted⟩ := accounts.topLevel
  have none : (new.find? fun id => (u.import? id).any fun i =>
      i.source == module && i.acceptsNames && !(u.spanOf id).isEmpty) = none := by
    rw [List.find?_eq_none]
    intro id here
    obtain ⟨inserted, listed, rfl⟩ := List.mem_map.mp (inserted id here)
    simp [accounts.places.isEmpty _ (accounts.declared inserted listed).1]
  rw [parts, List.find?_append, none, Option.or_none, acceptingImport?]
  refine List.find?_congr fun id here => ?_
  cases before : t.import? id with
  | some i =>
      obtain ⟨solid, added, after, -⟩ := accounts.exists_import_of_old pristine before
      simp [after, solid, ImportNode.acceptsNames]
  | none =>
      cases after : u.import? id with
      | none => rfl
      | some i =>
          obtain ⟨-, j, added, isImport, -⟩ := accounts.import_of_old pristine after (pristine.known id here)
          cases before.symm.trans isImport

/-- No node that has come is bound by two imports, or twice by one: each is written at one place. -/
theorem nodup_importLocals (declare : u.ImportsDeclare) :
    (u.importLocals.filter fun k => decide (t.size ≤ k.index)).Nodup := by
  have once : ((t.sites u).flatMap (u.writtenAt t.size)).Nodup := by
    refine accounts.written.nodup_iff.mpr (List.Nodup.map ?_ List.nodup_range')
    rintro _ _ ⟨⟩
    rfl
  obtain ⟨inside, apart⟩ := List.nodup_flatMap.mp once
  -- What an import binds besides its names in the source is what is written at it.
  have written (id : NodeId) (i : ImportNode) (here : (id, i) ∈ u.imports) :
      (i.localNodes.filter fun k => decide (t.size ≤ k.index)).Sublist (u.writtenAt t.size id) := by
    have isImport := (mem_imports.mp here).2
    rw [writtenAt]
    split
    · next old =>
      obtain ⟨-, j, added, before, rfl, -⟩ := accounts.import_of_old pristine isImport old
      have none : (j.defaultName.toList ++ j.namespaceName.toList ++
          (j.named.map fun n => n.specifiers.map (·.localNode)).getD []).filter
            (fun k => decide (t.size ≤ k.index)) = [] := by
        refine List.filter_eq_nil_iff.mpr fun k listed new => ?_
        have known := pristine.named id _ (import?_eq_some_iff.mp before) k (List.mem_append_left _ listed)
        exact Nat.not_lt.mpr (of_decide_eq_true new) known
      rw [addedTo_of_import isImport, ImportNode.localNodes, List.filter_append, none, List.nil_append]
      exact List.filter_sublist
    · rw [namedBy, import?_eq_some_iff.mp isImport]
      exact List.filter_sublist.trans (List.sublist_cons_self id _)
  rw [importLocals, List.filter_flatMap, List.nodup_flatMap]
  constructor
  · rintro ⟨id, i⟩ here
    exact (inside id (accounts.mem_sites (mem_imports.mp here).1)).sublist (written id i here)
  · have different : (u.imports.map (·.1)).Nodup := by
      rw [map_fst_imports]
      exact declare.nodup.filter _
    refine (List.pairwise_map.mp different).imp_of_mem ?_
    rintro ⟨a, i⟩ ⟨b, j⟩ here there differs
    have sites {id : NodeId} {i : ImportNode} (here : (id, i) ∈ u.imports) : id ∈ t.sites u :=
      accounts.mem_sites (mem_imports.mp here).1
    have : Std.Symm (Function.onFun List.Disjoint (u.writtenAt t.size)) :=
      ⟨fun _ _ apart _ first second => apart second first⟩
    have disjoint := apart.forall (sites here) (sites there) differs
    exact fun k first second => disjoint ((written a i here).subset first) ((written b j there).subset second)

/-- A name that the module lists once, for a node that has come and that an import binds, is the name of no other
node that an import binds. -/
theorem filter_importLocals (declare : u.ImportsDeclare) (indexed : u.IsIndexed) {name : String} {k : NodeId}
    (once : u.listed moduleScope name = [k]) (new : t.size ≤ k.index) (here : k ∈ u.importLocals) :
    u.importLocals.filter (fun l => u.name? l == some name) = [k] := by
  have only (l : NodeId) (listed : l ∈ u.importLocals) (named : u.name? l = some name) : l = k := by
    obtain ⟨⟨id, i⟩, inImports, inLocals⟩ := List.mem_flatMap.mp listed
    have binds := binds_of_declaresIn (declare.declared id i inImports l inLocals) named
    exact List.mem_singleton.mp (once ▸ indexed.mem_listed.mpr binds)
  have named : u.name? k = some name := by
    obtain ⟨n, found, bindsIn⟩ := indexed.mem_listed.mp (once ▸ List.mem_singleton_self k)
    obtain ⟨i, kind, -, -, rfl⟩ := Node.of_bindsIn bindsIn
    rw [name?, identifier?_eq_some_iff.mpr ⟨n, found, kind⟩, Option.map_some]
  have parts : u.importLocals.filter (fun l => u.name? l == some name) =
      (u.importLocals.filter fun l => decide (t.size ≤ l.index)).filter fun l => u.name? l == some name := by
    rw [List.filter_filter]
    refine List.filter_congr fun l listed => ?_
    by_cases same : u.name? l = some name
    · rw [only l listed same]
      simp [named, new]
    · simp [same]
  have nodup : (u.importLocals.filter fun l => u.name? l == some name).Nodup := by
    rw [parts]
    exact (accounts.nodup_importLocals pristine declare).filter _
  refine List.perm_singleton.mp ((List.perm_ext_iff_of_nodup nodup (List.nodup_singleton k)).mpr fun l => ?_)
  rw [List.mem_filter, beq_iff_eq, List.mem_singleton]
  constructor
  · exact fun both => only l both.1 both.2
  · rintro rfl
    exact ⟨here, named⟩

end Accounts

end Tree

end BindingRepair.Script
