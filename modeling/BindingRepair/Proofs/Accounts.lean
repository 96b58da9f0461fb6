/-
# What edits add up to

After any edits of a tree that was read, a node of the source is what it was, or a binding under another
name, or an import with more names; and every node that is not in the source is written at exactly one
place, with an import of the source or as a declaration of its own.
-/

import BindingRepair.Proofs.Printing
import BindingRepair.Proofs.Pristine
import Mathlib.Data.List.Basic
import Mathlib.Data.List.Nodup
import Mathlib.Data.List.Perm.Subperm

namespace BindingRepair.Script

open Text

/-- More elements in the list of one entry are more elements of all lists together. -/
theorem perm_flatMap_append {α β : Type} {f g : α → List β} {l : List α} {a : α} {xs : List β} (nodup : l.Nodup)
    (here : a ∈ l) (changed : g a = f a ++ xs) (same : ∀ b ∈ l, b ≠ a → g b = f b) :
    (l.flatMap g).Perm (l.flatMap f ++ xs) := by
  obtain ⟨front, behind, rfl⟩ := List.append_of_mem here
  have apart := List.nodup_middle.mp nodup
  have other {b : α} (listed : b ∈ front ++ behind) : b ≠ a := by
    rintro rfl
    exact (List.nodup_cons.mp apart).1 listed
  have first : front.flatMap g = front.flatMap f := by
    apply List.flatMap_congr
    intro b listed
    exact same b (List.mem_append_left _ listed) (other (List.mem_append_left _ listed))
  have second : behind.flatMap g = behind.flatMap f := by
    apply List.flatMap_congr
    intro b listed
    exact same b (List.mem_append_right _ (List.mem_cons_of_mem _ listed)) (other (List.mem_append_right _ listed))
  simp only [List.flatMap_append, List.flatMap_cons, first, second, changed, List.append_assoc]
  exact (List.perm_append_comm.append_left _).append_left _

namespace NodeKind

/-- The nodes that have been added to an import. -/
def added : NodeKind → List NodeId
  | importDeclaration i => i.added
  | _ => []

/-- What edits may make of a kind that was read. -/
inductive Becomes : NodeKind → NodeKind → Prop
  | same (kind : NodeKind) : Becomes kind kind
  | renamed (i : IdentifierNode) (name : String) (binds : i.site?.isSome = true) :
      Becomes (identifier i) (identifier { i with name, renamedFrom := some i.name })
  | extended (i : ImportNode) (added : List NodeId) (accepts : i.acceptsNames = true) :
      Becomes (importDeclaration i) (importDeclaration { i with added })

/-- The kinds of the nodes that are not in the source. -/
inductive IsNew : NodeKind → Prop
  | identifier (i : IdentifierNode) (synthesized : i.synthesized = true) : IsNew (identifier i)
  | importDeclaration (source : String) (added : List NodeId) : IsNew (importDeclaration { source, added })
  | synthesized (declaration : SynthesizedDeclaration) : IsNew (synthesized declaration)

end NodeKind

namespace Tree

/-- The nodes that have been added to a node that was read. -/
def addedTo (t : Tree) (id : NodeId) : List NodeId :=
  ((t.kind? id).map NodeKind.added).getD []

/-- The nodes that a node names. -/
def namedBy (t : Tree) (id : NodeId) : List NodeId :=
  ((t.kind? id).map NodeKind.named).getD []

/-- The nodes that are written at a node: behind one that was read when the tree had `size` nodes, those
that have been added to it; otherwise the node itself with those that it names. -/
def writtenAt (t : Tree) (size : Nat) (id : NodeId) : List NodeId :=
  if id.index < size then t.addedTo id else id :: t.namedBy id

/-- The nodes that have come since the tree had `size` nodes. -/
def newSince (t : Tree) (size : Nat) : List NodeId :=
  (List.range' size (t.size - size)).map NodeId.mk

/-- The nodes that something is written at when `t` has become `u`. -/
def sites (t u : Tree) : List NodeId :=
  t.topLevel ++ u.insertions.map (·.node)

/-- What has become of a tree that was read, by any edits. -/
structure Descends (t u : Tree) : Prop where
  places : t.KeepsPlaces u
  becomes : ∀ id kind, t.kind? id = some kind → ∃ kind', u.kind? id = some kind' ∧ kind.Becomes kind'
  new : ∀ id kind, t.size ≤ id.index → u.kind? id = some kind → kind.IsNew
  topLevel : ∃ imports, u.topLevel = t.topLevel ++ imports ∧ ∀ id ∈ imports, id ∈ u.insertions.map (·.node)
  marks : ∀ i ∈ u.insertions, (Cursor.start t.source).Marks i.offset
  declared : ∀ i ∈ u.insertions,
    t.size ≤ i.node.index ∧ ∃ kind, u.kind? i.node = some kind ∧ kind.isIdentifier = false
  nodup : (u.insertions.map (·.node)).Nodup
  /-- No new node is written at two places. -/
  once : ((t.sites u).flatMap (u.writtenAt t.size)).Subperm (u.newSince t.size)

/-- All that has come to a tree that was read is accounted for. -/
structure Accounts (t u : Tree) : Prop extends Descends t u where
  /-- Every new node is written at one place. -/
  written : ((t.sites u).flatMap (u.writtenAt t.size)).Perm (u.newSince t.size)

variable {t u v : Tree}

theorem newSince_append (t u : Tree) {size : Nat} (first : size ≤ t.size) (second : t.size ≤ u.size) :
    u.newSince size = t.newSince size ++ u.newSince t.size := by
  unfold newSince
  rw [← List.map_append]
  congr 1
  have parts : u.size - size = (t.size - size) + (u.size - t.size) := by omega
  have next : t.size = size + (t.size - size) := by omega
  rw [parts, ← List.range'_append_1]
  congr 2
  exact next.symm

theorem mem_newSince {size : Nat} {id : NodeId} :
    id ∈ t.newSince size ↔ size ≤ id.index ∧ id.index < t.size := by
  simp only [newSince, List.mem_map, List.mem_range'_1]
  constructor
  · rintro ⟨index, ⟨first, last⟩, rfl⟩
    exact ⟨first, by dsimp only; omega⟩
  · rintro ⟨first, last⟩
    exact ⟨id.index, ⟨first, by omega⟩, rfl⟩

/-- In a pristine tree nothing is new. -/
theorem IsPristine.written (pristine : t.IsPristine) :
    ((t.sites t).flatMap (t.writtenAt t.size)).Perm (t.newSince t.size) := by
  have none : t.topLevel.flatMap (t.writtenAt t.size) = [] := by
    rw [List.flatMap_eq_nil_iff]
    intro id here
    rw [writtenAt, if_pos (pristine.known id here), addedTo, kind?]
    cases found : t.node? id with
    | none => rfl
    | some n =>
        cases kind : n.kind with
        | importDeclaration i => simpa [kind, NodeKind.added] using (pristine.imports id n i found kind).2
        | _ => simp [kind, NodeKind.added]
  simp only [sites, pristine.insertions, List.map_nil, List.append_nil, none, newSince, Nat.sub_self,
    List.range'_zero]
  exact .nil

theorem IsPristine.descends (pristine : t.IsPristine) : t.Descends t where
  places := .refl t
  becomes id kind found := ⟨kind, found, .same kind⟩
  new id kind outside found := absurd (lt_size_of_kind? found) (Nat.not_lt.mpr outside)
  topLevel := ⟨[], (List.append_nil _).symm, fun _ here => absurd here List.not_mem_nil⟩
  marks i here := by
    rw [pristine.insertions] at here
    cases here
  declared i here := by
    rw [pristine.insertions] at here
    cases here
  nodup := by
    rw [pristine.insertions]
    exact List.nodup_nil
  once := pristine.written.subperm

/-- A pristine tree accounts for itself. -/
theorem IsPristine.accounts (pristine : t.IsPristine) : t.Accounts t :=
  ⟨pristine.descends, pristine.written⟩

/-! ### Kinds and statements after an edit -/

theorem kind?_modifyNode (t : Tree) (id other : NodeId) (change : Node → Node) :
    (t.modifyNode id change).kind? other =
      if id = other then (t.node? other).map fun n => (change n).kind else t.kind? other := by
  rw [kind?, node?_modifyNode, kind?]
  split
  · cases t.node? other with
    | none => rfl
    | some n => rfl
  · rfl

theorem childrenOf_addNode (t : Tree) (kind : NodeKind) (parent : NodeId) (scope : ScopeId) (offset : Nat)
    {id : NodeId} (known : id.index < t.size) : (t.addNode kind parent scope offset).2.childrenOf id =
      t.childrenOf id ++ if parent = id then [⟨t.size⟩] else [] := by
  have found : t.node? id = some t.nodes[id.index] := Array.getElem?_eq_getElem known
  rw [childrenOf, node?_addNode, if_neg (Nat.ne_of_lt known), childrenOf, found]
  split
  · exact Array.toList_push
  · exact (List.append_nil _).symm

theorem childrenOf_modifyNode (t : Tree) (id other : NodeId) {change : Node → Node}
    (children : ∀ n, (change n).children = n.children) :
    (t.modifyNode id change).childrenOf other = t.childrenOf other := by
  rw [childrenOf, node?_modifyNode, childrenOf]
  split
  · cases t.node? other with
    | none => rfl
    | some n => simp [children]
  · rfl

theorem childrenOf_addBinding (t : Tree) {parent : NodeId} (scope : ScopeId) (name : String)
    (kind : BindingKind) {id : NodeId} (known : id.index < t.size) (other : parent ≠ id) :
    (t.addBinding parent scope name kind).2.childrenOf id = t.childrenOf id := by
  refine (t.childrenOf_addNode _ parent scope _ known).trans ?_
  rw [if_neg other, List.append_nil]

theorem addedTo_of_import {id : NodeId} {i : ImportNode} (isImport : t.import? id = some i) :
    t.addedTo id = i.added := by
  rw [addedTo, import?_eq_some_iff.mp isImport]
  rfl

theorem addedTo_eq_nil {id : NodeId} (none : t.import? id = none) : t.addedTo id = [] := by
  unfold import? at none
  unfold addedTo
  cases found : t.kind? id with
  | none => rfl
  | some kind =>
      rw [found] at none
      cases kind with
      | importDeclaration i => cases none
      | _ => rfl

theorem kind?_rename {id : NodeId} {i : IdentifierNode} {name : String} (isIdentifier : u.identifier? id = some i)
    (edited : u.rename id name = .ok v) (other : NodeId) :
    v.kind? other = if id = other then some (.identifier (i.renamed name)) else u.kind? other := by
  obtain ⟨j, again, -, rfl⟩ := rename_eq edited
  obtain rfl := Option.some.inj (isIdentifier.symm.trans again)
  obtain ⟨n, found, -⟩ := identifier?_eq_some_iff.mp isIdentifier
  refine (u.kind?_modifyNode id other _).trans ?_
  split
  · next same =>
    rw [← same, found]
    rfl
  · rfl

section AddImportedName

variable (t) (p : NodeId) (name : String)

theorem size_addImportedName : (t.addImportedName p name).size = t.size + 1 :=
  Array.size_modify.trans (size_addBinding ..)

theorem kind?_addImportedName {i : ImportNode} (isImport : t.import? p = some i) (id : NodeId) :
    (t.addImportedName p name).kind? id =
      if id = p then some (.importDeclaration { i with added := i.added ++ [⟨t.size⟩] })
      else if id.index = t.size then
        some (.identifier { name, role := .binding { kind := .imported }, synthesized := true })
      else t.kind? id := by
  have kind := import?_eq_some_iff.mp isImport
  have found := (t.keeps_addBinding p moduleScope name .imported) p _ kind
  unfold addImportedName
  dsimp only
  rw [kind?_modifyNode, kind?_addBinding]
  by_cases here : p = id
  · subst here
    obtain ⟨n, node, isImport⟩ := Option.map_eq_some_iff.mp found
    rw [if_pos rfl, if_pos rfl, node, Option.map_some, isImport]
    rfl
  · rw [if_neg here, if_neg (Ne.symm here)]

theorem import?_addImportedName {i : ImportNode} (isImport : t.import? p = some i) :
    (t.addImportedName p name).import? p = some { i with added := i.added ++ [⟨t.size⟩] } := by
  rw [import?_eq_some_iff, t.kind?_addImportedName p name isImport, if_pos rfl]

/-- Names added to an import change no other node. -/
theorem kind?_foldl_addImportedName {i : ImportNode} (isImport : t.import? p = some i) (names : List String)
    {id : NodeId} {kind : NodeKind} (other : id ≠ p) (found : t.kind? id = some kind) :
    (names.foldl (·.addImportedName p) t).kind? id = some kind := by
  induction names generalizing t i with
  | nil => exact found
  | cons name names ih =>
      refine ih _ (t.import?_addImportedName p name isImport) ?_
      rw [t.kind?_addImportedName p name isImport, if_neg other, if_neg (Nat.ne_of_lt (lt_size_of_kind? found)), found]

theorem childrenOf_addImportedName {id : NodeId} (known : id.index < t.size) (other : p ≠ id) :
    (t.addImportedName p name).childrenOf id = t.childrenOf id := by
  unfold addImportedName
  dsimp only
  rw [childrenOf_modifyNode]
  · exact t.childrenOf_addBinding moduleScope name .imported known other
  · exact fun _ => rfl

end AddImportedName

/-- A binding under another name is written where it was. -/
theorem written_rename {id : NodeId} {name : String} (edited : u.rename id name = .ok v) (size : Nat) :
    (t.sites v).flatMap (v.writtenAt size) = (t.sites u).flatMap (u.writtenAt size) ∧
      v.newSince size = u.newSince size := by
  obtain ⟨i, isIdentifier, -, is⟩ := rename_eq edited
  obtain ⟨n, found, kind⟩ := identifier?_eq_some_iff.mp isIdentifier
  have here : u.kind? id = some (.identifier i) := by rw [kind?, found, Option.map_some, kind]
  have kinds := kind?_rename isIdentifier edited
  have insertions : v.insertions = u.insertions := by
    rw [is]
    rfl
  have size' : v.size = u.size := by
    rw [is]
    exact Array.size_modify
  have added (other : NodeId) : v.addedTo other = u.addedTo other := by
    rw [addedTo, kinds, addedTo]
    split
    · rename_i same
      rw [← same, here]
      rfl
    · rfl
  have named (other : NodeId) : v.namedBy other = u.namedBy other := by
    rw [namedBy, kinds, namedBy]
    split
    · rename_i same
      rw [← same, here]
      rfl
    · rfl
  have same : v.writtenAt size = u.writtenAt size := by
    funext other
    rw [writtenAt, writtenAt, added, named]
  exact ⟨by rw [sites, insertions, ← sites, same], by rw [newSince, size', newSince]⟩

namespace Descends

variable (descends : t.Descends u)
include descends

theorem size_le : t.size ≤ u.size :=
  descends.places.size_le

theorem isModule (pristine : t.IsPristine) : ∃ m, u.kind? root = some (.module m) ∧
    (NodeKind.module m).Placed (Cursor.start t.source) := by
  obtain ⟨m, found⟩ := pristine.isModule
  obtain ⟨kind, found', becomes⟩ := descends.becomes _ _ found
  cases becomes
  exact ⟨m, found', pristine.placed _ _ found⟩

theorem nodup_sites (pristine : t.IsPristine) : (t.sites u).Nodup := by
  rw [sites, List.nodup_append]
  refine ⟨pristine.nodup, descends.nodup, ?_⟩
  rintro a first b second rfl
  obtain ⟨i, here, rfl⟩ := List.mem_map.mp second
  exact absurd (pristine.known _ first) (Nat.not_lt.mpr (descends.declared i here).1)

/-- Something is known of every node that something is written at. -/
theorem exists_kind_of_mem_sites (pristine : t.IsPristine) {id : NodeId} (here : id ∈ t.sites u) :
    ∃ kind, u.kind? id = some kind := by
  rcases List.mem_append.mp here with first | second
  · have known := pristine.known id first
    obtain ⟨kind, found, -⟩ := descends.becomes id _ (by
      rw [kind?, node?, Array.getElem?_eq_getElem known]
      rfl)
    exact ⟨kind, found⟩
  · obtain ⟨i, listed, rfl⟩ := List.mem_map.mp second
    obtain ⟨kind, found, -⟩ := (descends.declared i listed).2
    exact ⟨kind, found⟩

theorem root_lt (pristine : t.IsPristine) : root.index < u.size := by
  obtain ⟨m, found, -⟩ := descends.isModule pristine
  exact lt_size_of_kind? found

/-- Only a node of its own kind is the root. -/
theorem ne_root (pristine : t.IsPristine) {id : NodeId} {kind : NodeKind} (found : u.kind? id = some kind)
    (other : ∀ m, kind ≠ .module m) : id ≠ root := by
  rintro rfl
  obtain ⟨m, found', -⟩ := descends.isModule pristine
  exact other m (Option.some.inj (found.symm.trans found'))

/-- A name that is added to an import is written there, if something is written at the import. -/
theorem perm_addImportedName (pristine : t.IsPristine) {p : NodeId} {i : ImportNode}
    (isImport : u.import? p = some i) (site : p ∈ t.sites u) (name : String) :
    ((t.sites u).flatMap ((u.addImportedName p name).writtenAt t.size)).Perm
      ((t.sites u).flatMap (u.writtenAt t.size) ++ [⟨u.size⟩]) := by
  have kind := import?_eq_some_iff.mp isImport
  have kinds := u.kind?_addImportedName p name isImport
  refine perm_flatMap_append (descends.nodup_sites pristine) site ?_ fun id here other => ?_
  · simp only [writtenAt, addedTo, namedBy, kinds, if_true, kind, Option.map_some, Option.getD_some,
      NodeKind.added, NodeKind.named, ImportNode.localNodes]
    split
    · rfl
    · rw [← List.append_assoc]
      rfl
  · obtain ⟨kind', found⟩ := descends.exists_kind_of_mem_sites pristine here
    have old : id.index ≠ u.size := Nat.ne_of_lt (lt_size_of_kind? found)
    simp only [writtenAt, addedTo, namedBy, kinds, if_neg other, if_neg old]

/-- Nothing else is written because of it. -/
theorem flatMap_addImportedName (pristine : t.IsPristine) {p : NodeId} {i : ImportNode}
    (isImport : u.import? p = some i) (elsewhere : p ∉ t.sites u) (name : String) :
    (t.sites u).flatMap ((u.addImportedName p name).writtenAt t.size) =
      (t.sites u).flatMap (u.writtenAt t.size) := by
  have kinds := u.kind?_addImportedName p name isImport
  refine List.flatMap_congr fun id here => ?_
  obtain ⟨kind, found⟩ := descends.exists_kind_of_mem_sites pristine here
  have other : id ≠ p := fun same => elsewhere (same ▸ here)
  have old : id.index ≠ u.size := Nat.ne_of_lt (lt_size_of_kind? found)
  simp only [writtenAt, addedTo, namedBy, kinds, if_neg other, if_neg old]

theorem newSince_addImportedName (p : NodeId) (name : String) :
    (u.addImportedName p name).newSince t.size = u.newSince t.size ++ [⟨u.size⟩] := by
  have last : (u.addImportedName p name).newSince u.size = [⟨u.size⟩] := by
    simp [newSince, size_addImportedName]
  rw [newSince_append u _ descends.size_le (by rw [size_addImportedName]; exact Nat.le_succ _), last]

/-- Names may be added to any import that accepts them. -/
theorem addImportedName (pristine : t.IsPristine) {p : NodeId} {i : ImportNode}
    (isImport : u.import? p = some i) (accepts : p.index < t.size → i.acceptsNames = true) (name : String) :
    t.Descends (u.addImportedName p name) := by
  have kind := import?_eq_some_iff.mp isImport
  have kinds := u.kind?_addImportedName p name isImport
  have known {id : NodeId} {kind : NodeKind} (found : u.kind? id = some kind) : id.index ≠ u.size :=
    Nat.ne_of_lt (lt_size_of_kind? found)
  have old {id : NodeId} {kind : NodeKind} (found : u.kind? id = some kind) (other : id ≠ p) :
      (u.addImportedName p name).kind? id = some kind := by
    rw [kinds, if_neg other, if_neg (known found), found]
  exact {
    places := descends.places.trans (u.keepsPlaces_foldl_addImportedName p [name])
    becomes := fun id first found => by
      obtain ⟨kind', found', becomes⟩ := descends.becomes id first found
      by_cases here : id = p
      · subst here
        obtain rfl := Option.some.inj (found'.symm.trans kind)
        refine ⟨_, by rw [kinds, if_pos rfl], ?_⟩
        have open' := accepts (lt_size_of_kind? found)
        cases becomes with
        | same => exact .extended i _ open'
        | extended first added takes => exact .extended first _ takes
      · exact ⟨kind', old found' here, becomes⟩
    new := fun id kind' outside found => by
      rw [kinds] at found
      split at found
      · rename_i here
        rw [← Option.some.inj found]
        cases descends.new p _ (here ▸ outside) kind with
        | importDeclaration source added => exact .importDeclaration source _
      · split at found
        · rw [← Option.some.inj found]
          exact .identifier _ rfl
        · exact descends.new id kind' outside found
    topLevel := by
      rw [Tree.topLevel, u.childrenOf_addImportedName p name (descends.root_lt pristine)
        (descends.ne_root pristine kind fun _ => NodeKind.noConfusion)]
      exact descends.topLevel
    marks := descends.marks
    declared := fun j here => by
      obtain ⟨outside, kind', found, plain⟩ := descends.declared j here
      refine ⟨outside, ?_⟩
      by_cases same : j.node = p
      · exact ⟨_, by rw [kinds, if_pos same], rfl⟩
      · exact ⟨kind', old found same, plain⟩
    nodup := descends.nodup
    once := by
      rw [descends.newSince_addImportedName]
      by_cases site : p ∈ t.sites u
      · exact (descends.perm_addImportedName pristine isImport site name).subperm.trans
          ((List.subperm_append_right _).mpr descends.once)
      · show ((t.sites u).flatMap _).Subperm _
        rw [descends.flatMap_addImportedName pristine isImport site name]
        exact descends.once.trans (List.sublist_append_left _ _).subperm }

/-- So may any number of names. -/
theorem foldl_addImportedName (pristine : t.IsPristine) {p : NodeId} {i : ImportNode}
    (isImport : u.import? p = some i) (accepts : p.index < t.size → i.acceptsNames = true)
    (names : List String) : t.Descends (names.foldl (·.addImportedName p) u) := by
  induction names generalizing u i with
  | nil => exact descends
  | cons name names ih =>
      exact ih (descends.addImportedName pristine isImport accepts name) (u.import?_addImportedName p name isImport)
        accepts

/-- A binding may get another name. -/
theorem rename (pristine : t.IsPristine) {id : NodeId} {name : String} (edited : u.rename id name = .ok v) :
    t.Descends v := by
  have places : u.KeepsPlaces v := by
    simpa [edit, edited, orKept] using u.keepsPlaces_edit (.rename id name)
  obtain ⟨i, isIdentifier, binds, is⟩ := rename_eq edited
  obtain ⟨n, found, kind⟩ := identifier?_eq_some_iff.mp isIdentifier
  have here : u.kind? id = some (.identifier i) := by rw [kind?, found, Option.map_some, kind]
  have kinds := kind?_rename isIdentifier edited
  have insertions : v.insertions = u.insertions := by
    rw [is]
    rfl
  exact {
    places := descends.places.trans places
    becomes := fun other first found' => by
      obtain ⟨kind', now, becomes⟩ := descends.becomes other first found'
      by_cases same : id = other
      · subst same
        obtain rfl := Option.some.inj (now.symm.trans here)
        refine ⟨_, (kinds id).trans (if_pos rfl), ?_⟩
        cases becomes with
        | same =>
            obtain ⟨m, node, isFirst⟩ := Option.map_eq_some_iff.mp found'
            obtain ⟨-, unrenamed, inText⟩ := pristine.identifiers id m i node isFirst
            have renamed : i.renamed name = { i with name, renamedFrom := some i.name } := by
              simp [IdentifierNode.renamed, unrenamed, inText]
            rw [renamed]
            exact .renamed i name binds
        | renamed first last binds => exact .renamed first name binds
      · exact ⟨kind', (kinds other).trans ((if_neg same).trans now), becomes⟩
    new := fun other kind' outside found' => by
      rw [kinds] at found'
      split at found'
      · rename_i same
        rw [← Option.some.inj found']
        cases descends.new id _ (same ▸ outside) here with
        | identifier _ synthesized => exact .identifier _ synthesized
      · exact descends.new other kind' outside found'
    topLevel := by
      have same : v.topLevel = u.topLevel := by
        rw [is]
        exact childrenOf_modifyNode u id root fun _ => rfl
      rw [same, insertions]
      exact descends.topLevel
    marks := insertions ▸ descends.marks
    declared := fun j listed => by
      rw [insertions] at listed
      obtain ⟨outside, kind', found', plain⟩ := descends.declared j listed
      refine ⟨outside, kind', (kinds j.node).trans ((if_neg ?_).trans found'), plain⟩
      rintro rfl
      obtain rfl := Option.some.inj (here.symm.trans found')
      cases plain
    nodup := insertions ▸ descends.nodup
    once := by
      obtain ⟨written, new⟩ := written_rename (t := t) edited t.size
      rw [written, new]
      exact descends.once }

end Descends

namespace Accounts

variable (accounts : t.Accounts u)
include accounts

/-- Where a name is added to an import that something is written at, it is written there. -/
theorem addImportedName (pristine : t.IsPristine) {p : NodeId} {i : ImportNode}
    (isImport : u.import? p = some i) (site : p ∈ t.sites u)
    (accepts : p.index < t.size → i.acceptsNames = true) (name : String) :
    t.Accounts (u.addImportedName p name) where
  toDescends := accounts.toDescends.addImportedName pristine isImport accepts name
  written := by
    rw [accounts.newSince_addImportedName]
    exact (accounts.perm_addImportedName pristine isImport site name).trans (accounts.written.append_right _)

/-- So are any number of names. -/
theorem foldl_addImportedName (pristine : t.IsPristine) {p : NodeId} {i : ImportNode}
    (isImport : u.import? p = some i) (site : p ∈ t.sites u)
    (accepts : p.index < t.size → i.acceptsNames = true) (names : List String) :
    t.Accounts (names.foldl (·.addImportedName p) u) := by
  induction names generalizing u i with
  | nil => exact accounts
  | cons name names ih =>
      exact ih (accounts.addImportedName pristine isImport site accepts name)
        (u.import?_addImportedName p name isImport) site accepts

theorem rename (pristine : t.IsPristine) {id : NodeId} {name : String} (edited : u.rename id name = .ok v) :
    t.Accounts v where
  toDescends := accounts.toDescends.rename pristine edited
  written := by
    obtain ⟨written, new⟩ := written_rename (t := t) edited t.size
    rw [written, new]
    exact accounts.written

end Accounts

/-! ### Declarations -/

/-- A tree with one more declaration of its own at a place. It names all other nodes that have come. -/
structure Inserts (u v : Tree) (place : Nat) : Prop where
  keeps : u.Keeps v
  size_le : u.size ≤ v.size
  new : ∀ id kind, u.size ≤ id.index → v.kind? id = some kind → kind.IsNew
  declared : ∃ kind, v.kind? ⟨u.size⟩ = some kind ∧ kind.isIdentifier = false
  topLevel : ∃ imports, v.topLevel = u.topLevel ++ imports ∧ ∀ id ∈ imports, id = ⟨u.size⟩
  nodes : v.insertions.map (·.node) = u.insertions.map (·.node) ++ [⟨u.size⟩]
  offsets : ∀ i ∈ v.insertions, i.offset = place ∨ ∃ j ∈ u.insertions, j.offset = i.offset
  written : v.newSince u.size = ⟨u.size⟩ :: v.namedBy ⟨u.size⟩

/-- A declaration that is inserted is written there, with the nodes that it names. -/
theorem Descends.flatMap_inserts (descends : t.Descends u) (pristine : t.IsPristine) {place : Nat}
    (inserts : u.Inserts v place) : (t.sites v).flatMap (v.writtenAt t.size) =
      (t.sites u).flatMap (u.writtenAt t.size) ++ v.newSince u.size := by
  have old : (t.sites u).flatMap (v.writtenAt t.size) = (t.sites u).flatMap (u.writtenAt t.size) := by
    apply List.flatMap_congr
    intro id here
    obtain ⟨kind, found⟩ := descends.exists_kind_of_mem_sites pristine here
    simp only [writtenAt, addedTo, namedBy, inserts.keeps id kind found, found]
  have last : v.writtenAt t.size ⟨u.size⟩ = v.newSince u.size := by
    rw [writtenAt, if_neg (Nat.not_lt.mpr descends.size_le), inserts.written]
  rw [sites, inserts.nodes, ← List.append_assoc, List.flatMap_append, ← sites, old, List.flatMap_singleton, last]

/-- A declaration may be inserted at any place in the text. -/
theorem Descends.inserts (descends : t.Descends u) (pristine : t.IsPristine) {place : Nat}
    (inserts : u.Inserts v place) (places : t.KeepsPlaces v) (marks : (Cursor.start t.source).Marks place) :
    t.Descends v where
  places := places
  becomes id first found := by
    obtain ⟨kind, found', becomes⟩ := descends.becomes id first found
    exact ⟨kind, inserts.keeps id kind found', becomes⟩
  new id kind outside found := by
    by_cases known : id.index < u.size
    · obtain ⟨old, here⟩ : ∃ old, u.kind? id = some old := by
        rw [kind?, node?, Array.getElem?_eq_getElem known]
        exact ⟨_, rfl⟩
      obtain rfl := Option.some.inj ((inserts.keeps id old here).symm.trans found)
      exact descends.new id old outside here
    · exact inserts.new id kind (Nat.le_of_not_lt known) found
  topLevel := by
    obtain ⟨imports, first, inside⟩ := descends.topLevel
    obtain ⟨more, second, last⟩ := inserts.topLevel
    refine ⟨imports ++ more, by rw [second, first, List.append_assoc], fun id here => ?_⟩
    rw [inserts.nodes]
    rcases List.mem_append.mp here with old | new
    · exact List.mem_append_left _ (inside id old)
    · exact List.mem_append_right _ (List.mem_singleton.mpr (last id new))
  marks i here := by
    rcases inserts.offsets i here with same | ⟨j, listed, same⟩
    · exact same ▸ marks
    · exact same ▸ descends.marks j listed
  declared i here := by
    have listed : i.node ∈ u.insertions.map (·.node) ++ [⟨u.size⟩] := by
      rw [← inserts.nodes]
      exact List.mem_map_of_mem here
    rcases List.mem_append.mp listed with old | last
    · obtain ⟨j, there, same⟩ := List.mem_map.mp old
      obtain ⟨outside, kind, found, plain⟩ := descends.declared j there
      rw [← same]
      exact ⟨outside, kind, inserts.keeps _ kind found, plain⟩
    · rw [List.mem_singleton.mp last]
      exact ⟨descends.size_le, inserts.declared⟩
  nodup := by
    rw [inserts.nodes, List.nodup_append]
    refine ⟨descends.nodup, List.nodup_singleton _, ?_⟩
    rintro a old b last rfl
    obtain ⟨j, there, same⟩ := List.mem_map.mp old
    obtain ⟨-, kind, found, -⟩ := descends.declared j there
    have known := lt_size_of_kind? found
    rw [same, List.mem_singleton.mp last] at known
    exact Nat.lt_irrefl _ known
  once := by
    rw [newSince_append u v descends.size_le inserts.size_le, descends.flatMap_inserts pristine inserts]
    exact (List.subperm_append_right _).mpr descends.once

/-- A declaration that is inserted at a place is accounted for. -/
theorem Accounts.inserts (accounts : t.Accounts u) (pristine : t.IsPristine) {place : Nat}
    (inserts : u.Inserts v place) (places : t.KeepsPlaces v) (marks : (Cursor.start t.source).Marks place) :
    t.Accounts v where
  toDescends := accounts.toDescends.inserts pristine inserts places marks
  written := by
    rw [newSince_append u v accounts.size_le inserts.size_le, accounts.flatMap_inserts pristine inserts]
    exact accounts.written.append_right _

/-! ### New imports -/

/-- The tree with one more text to be inserted. -/
def withInsertion (t : Tree) (i : Insertion) : Tree :=
  { t with insertions := t.insertions ++ [i] }

theorem foldl_withInsertion (t : Tree) (i : Insertion) (p : NodeId) (names : List String) :
    names.foldl (·.addImportedName p) (t.withInsertion i) =
      (names.foldl (·.addImportedName p) t).withInsertion i := by
  induction names generalizing t with
  | nil => rfl
  | cons name names ih => exact ih (t.addImportedName p name)

/-- The tree with one more import, which names nothing yet. -/
def withImport (t : Tree) (module : String) : Tree :=
  (t.addNode (.importDeclaration { source := module }) root moduleScope t.importPlace.1).2.withInsertion
    ⟨t.importPlace.1, ⟨t.size⟩, t.importPlace.2.1, t.importPlace.2.2⟩

theorem insertImport_eq (t : Tree) (module : String) (names : List String) :
    (t.insertImport module names).2 = names.foldl (·.addImportedName ⟨t.size⟩) (t.withImport module) :=
  (foldl_withInsertion ..).symm

theorem kind?_withImport (t : Tree) (module : String) (id : NodeId) : (t.withImport module).kind? id =
    if id.index = t.size then some (.importDeclaration { source := module }) else t.kind? id :=
  t.kind?_addNode _ root moduleScope _ id

theorem import?_withImport (t : Tree) (module : String) :
    (t.withImport module).import? ⟨t.size⟩ = some { source := module } := by
  rw [import?_eq_some_iff, kind?_withImport, if_pos rfl]

/-- A new import leaves the nodes of the tree as they are. -/
theorem keeps_insertImport (t : Tree) (module : String) (names : List String) :
    t.Keeps (t.insertImport module names).2 := by
  intro id kind found
  have other : id ≠ ⟨t.size⟩ := (ne_of_kind? found).symm
  rw [insertImport_eq]
  refine kind?_foldl_addImportedName _ _ (t.import?_withImport module) names other ?_
  rw [kind?_withImport, if_neg (Nat.ne_of_lt (lt_size_of_kind? found)), found]

/-- A new import is the last one. -/
theorem topLevel_withImport (known : root.index < t.size) (module : String) :
    (t.withImport module).topLevel = t.topLevel ++ [⟨t.size⟩] :=
  (t.childrenOf_addNode _ root moduleScope _ known).trans (by rw [if_pos rfl, topLevel])

theorem inserts_withImport {u : Tree} (known : root.index < u.size) (module : String) :
    u.Inserts (u.withImport module) u.importPlace.1 where
  keeps := u.keeps_addNode _ _ _ _
  size_le := (Nat.le_succ _).trans_eq (u.size_addNode ..).symm
  new id kind outside found := by
    rw [kind?_withImport] at found
    split at found
    · rw [← Option.some.inj found]
      exact .importDeclaration module []
    · exact absurd (lt_size_of_kind? found) (Nat.not_lt.mpr outside)
  declared := ⟨_, (u.kind?_withImport module _).trans (if_pos rfl), rfl⟩
  topLevel := ⟨[⟨u.size⟩], topLevel_withImport known module, fun id here => List.mem_singleton.mp here⟩
  nodes := by
    rw [withImport, withInsertion, List.map_append]
    rfl
  offsets i here := by
    rcases List.mem_append.mp here with old | new
    · exact .inr ⟨i, old, rfl⟩
    · rw [List.mem_singleton.mp new]
      exact .inl rfl
  written := by
    have size : (u.withImport module).size = u.size + 1 := u.size_addNode ..
    rw [newSince, size, namedBy, kind?_withImport, if_pos rfl, Nat.add_sub_cancel_left]
    rfl

/-! ### New declarations in a body -/

theorem nodes_placeDeclaration (t : Tree) (body : FunctionBody) (id : NodeId) :
    (t.placeDeclaration body id).insertions.map (·.node) = t.insertions.map (·.node) ++ [id] := by
  unfold placeDeclaration
  generalize t.declarationPlace body = place
  dsimp only
  rw [List.map_append, List.map_map]
  congr 1
  apply List.map_congr_left
  intro i _
  dsimp only [Function.comp]
  split
  · rfl
  · rfl

theorem topLevel_synthesize (t : Tree) (id : NodeId) (d : SynthesizedDeclaration) (body : FunctionBody) :
    (t.synthesize id d body).topLevel = t.topLevel := by
  refine (childrenOf_modifyNode _ _ root ?_).trans (childrenOf_modifyNode t _ root ?_)
  · exact fun _ => rfl
  · exact fun _ => rfl

/-- A statement with new names becomes a declaration of its own, which names them all. -/
theorem Prepared.inserts {w : Tree} (prepared : u.Prepared w) {d : SynthesizedDeclaration} {body : FunctionBody}
    (size_lt : u.size < w.size) (topLevel : w.topLevel = u.topLevel)
    (new : ∀ id kind, u.size < id.index → w.kind? id = some kind → kind.IsNew)
    (named : (List.range' (u.size + 1) (w.size - (u.size + 1))).map NodeId.mk = (NodeKind.synthesized d).named) :
    u.Inserts (w.synthesize ⟨u.size⟩ d body) (u.declarationPlace body).1 where
  keeps := prepared.keeps_synthesize d body
  size_le := (Nat.le_of_lt size_lt).trans_eq (size_synthesize ..).symm
  new id kind outside found := by
    rw [kind?_synthesize] at found
    split at found
    · obtain ⟨-, -, rfl⟩ := Option.map_eq_some_iff.mp found
      exact .synthesized d
    · rename_i other
      refine new id kind (Nat.lt_of_le_of_ne outside fun same => other ?_) found
      rw [same]
  declared := ⟨_, kind?_synthesize_self prepared.statement d body, rfl⟩
  topLevel := by
    refine ⟨[], ?_, fun _ here => absurd here List.not_mem_nil⟩
    rw [List.append_nil, topLevel_synthesize, topLevel]
  nodes := (nodes_placeDeclaration ..).trans (by rw [← prepared.insertions]; rfl)
  offsets i here := by
    let changed := w.modifyNode ⟨u.size⟩ fun n => { n with kind := .synthesized d }
    have same : changed.declarationPlace body = u.declarationPlace body := prepared.declarationPlace d body
    have placed : i.offset = (changed.declarationPlace body).1 ∨ ∃ j ∈ changed.insertions, j.offset = i.offset :=
      offset_of_mem_placeDeclaration here
    rw [← same, ← prepared.insertions]
    exact placed
  written := by
    rw [namedBy, kind?_synthesize_self prepared.statement d body, newSince, size_synthesize]
    have first : w.size - u.size = w.size - (u.size + 1) + 1 := by omega
    rw [first, List.range'_succ, List.map_cons, named]
    rfl

theorem new_addBinding {w : Tree} {size : Nat}
    (new : ∀ id kind, size < id.index → w.kind? id = some kind → kind.IsNew) (parent : NodeId) (scope : ScopeId)
    (name : String) (kind : BindingKind) : ∀ id kind', size < id.index →
      (w.addBinding parent scope name kind).2.kind? id = some kind' → kind'.IsNew := by
  intro id kind' behind found
  rw [kind?_addBinding] at found
  split at found
  · rw [← Option.some.inj found]
    exact .identifier _ rfl
  · exact new id kind' behind found

theorem new_withStatement (u : Tree) (function : NodeId) (body : FunctionBody) : ∀ id kind,
    u.size < id.index → (u.withStatement function body).kind? id = some kind → kind.IsNew := by
  intro id kind behind found
  rw [withStatement, kind?_addNode, if_neg (Nat.ne_of_gt behind)] at found
  exact absurd (lt_size_of_kind? found) (Nat.not_lt.mpr (Nat.le_of_lt behind))

section Declare

variable {function id : NodeId}

theorem topLevel_withStatement {body : FunctionBody} (known : root.index < u.size) (other : function ≠ root) :
    (u.withStatement function body).topLevel = u.topLevel := by
  refine (u.childrenOf_addNode .statement function body.scope _ known).trans ?_
  rw [if_neg other, List.append_nil, topLevel]

/-- So are a statement in a function with its names. -/
theorem topLevel_addBinding {w : Tree} (known : root.index < u.size) (behind : u.size < w.size)
    (same : w.topLevel = u.topLevel) (scope : ScopeId) (name : String) (kind : BindingKind) :
    (w.addBinding ⟨u.size⟩ scope name kind).2.topLevel = u.topLevel := by
  have inner : (⟨u.size⟩ : NodeId) ≠ root := fun same => Nat.ne_of_gt known (congrArg NodeId.index same)
  exact (w.childrenOf_addBinding scope name kind (known.trans behind) inner).trans same

/-- A declaration in a function is none of the module. -/
theorem topLevel_declareState {value setter callee : String} (known : root.index < u.size)
    (other : function ≠ root) (edited : u.declareState function value setter callee = .ok (id, v)) :
    v.topLevel = u.topLevel := by
  obtain ⟨body, -, -, rfl⟩ := declareState_eq edited
  have size : (u.withStatement function body).size = u.size + 1 := u.size_addNode ..
  have first := topLevel_addBinding known (by rw [size]; exact Nat.lt_succ_self _)
    (topLevel_withStatement known other) body.scope value .const
  refine (topLevel_synthesize ..).trans (topLevel_addBinding known ?_ first body.scope setter .const)
  rw [size_addBinding, size]
  exact Nat.lt_add_of_pos_right Nat.two_pos

theorem topLevel_declareNull {name : String} (known : root.index < u.size)
    (other : function ≠ root) (edited : u.declareNull function name = .ok (id, v)) : v.topLevel = u.topLevel := by
  obtain ⟨body, -, -, rfl⟩ := declareNull_eq edited
  refine (topLevel_synthesize ..).trans (topLevel_addBinding known ?_ (topLevel_withStatement known other) _ _ _)
  rw [withStatement, size_addNode]
  exact Nat.lt_succ_self _

theorem inserts_declareState {value setter callee : String} (known : root.index < u.size)
    (other : function ≠ root) (edited : u.declareState function value setter callee = .ok (id, v)) :
    ∃ body, u.blockBody function = .ok body ∧ u.Inserts v (u.declarationPlace body).1 := by
  obtain ⟨body, found, -, rfl⟩ := declareState_eq edited
  refine ⟨body, found, ?_⟩
  let statement := u.withStatement function body
  let first := (statement.addBinding ⟨u.size⟩ body.scope value .const).2
  let second := (first.addBinding ⟨u.size⟩ body.scope setter .const).2
  have size : statement.size = u.size + 1 := u.size_addNode ..
  have size' : first.size = u.size + 2 := (statement.size_addBinding ..).trans (by rw [size])
  have size'' : second.size = u.size + 3 := (first.size_addBinding ..).trans (by rw [size'])
  have prepared : u.Prepared second :=
    ((u.prepared_withStatement function body).addBinding body.scope value .const).addBinding body.scope setter .const
  refine prepared.inserts ?_ ?_ ?_ ?_
  · rw [size'']
    exact Nat.lt_add_of_pos_right (Nat.succ_pos 2)
  · refine topLevel_addBinding known ?_ (topLevel_addBinding known ?_ (topLevel_withStatement known other) _ _ _) _ _ _
    · rw [size']
      exact Nat.lt_add_of_pos_right Nat.two_pos
    · rw [size]
      exact Nat.lt_succ_self _
  · exact new_addBinding (new_addBinding (u.new_withStatement function body) _ _ _ _) _ _ _ _
  · rw [size'', Nat.add_sub_add_left]
    show (List.range' (u.size + 1) 2).map NodeId.mk = [⟨statement.size⟩, ⟨first.size⟩]
    rw [size, size']
    rfl

theorem inserts_declareNull {name : String} (known : root.index < u.size)
    (other : function ≠ root) (edited : u.declareNull function name = .ok (id, v)) :
    ∃ body, u.blockBody function = .ok body ∧ u.Inserts v (u.declarationPlace body).1 := by
  obtain ⟨body, found, -, rfl⟩ := declareNull_eq edited
  refine ⟨body, found, ?_⟩
  let statement := u.withStatement function body
  let first := (statement.addBinding ⟨u.size⟩ body.scope name .let).2
  have size : statement.size = u.size + 1 := u.size_addNode ..
  have size' : first.size = u.size + 2 := (statement.size_addBinding ..).trans (by rw [size])
  have prepared : u.Prepared first := (u.prepared_withStatement function body).addBinding body.scope name .let
  refine prepared.inserts ?_ ?_ ?_ ?_
  · rw [size']
    exact Nat.lt_add_of_pos_right (Nat.succ_pos 1)
  · refine topLevel_addBinding known ?_ (topLevel_withStatement known other) _ _ _
    rw [size]
    exact Nat.lt_succ_self _
  · exact new_addBinding (u.new_withStatement function body) _ _ _ _
  · rw [size', Nat.add_sub_add_left]
    show (List.range' (u.size + 1) 1).map NodeId.mk = [⟨statement.size⟩]
    rw [size]
    rfl

end Declare

/-! ### Histories -/

/-- Whether an edit is one that all names can be written after: names are added only to imports that are
statements of the module. -/
def allows (t : Tree) : Edit → Bool
  | .addImportNames importId _ => t.imports.any (·.1 == importId)
  | _ => true

/-- Whether edits, one after another, are all such. -/
def allowsAll (t : Tree) : List Edit → Bool
  | [] => true
  | e :: edits => t.allows e && (t.edit e).allowsAll edits

theorem mem_imports {id : NodeId} {i : ImportNode} :
    (id, i) ∈ t.imports ↔ id ∈ t.topLevel ∧ t.import? id = some i := by
  simp only [imports, List.mem_filterMap, Option.map_eq_some_iff, Prod.mk.injEq]
  constructor
  · rintro ⟨other, listed, j, isImport, rfl, rfl⟩
    exact ⟨listed, isImport⟩
  · rintro ⟨listed, isImport⟩
    exact ⟨id, listed, i, isImport, rfl, rfl⟩

namespace Descends

variable (descends : t.Descends u)
include descends

/-- What is at the top level is written at. -/
theorem mem_sites {id : NodeId} (here : id ∈ u.topLevel) : id ∈ t.sites u := by
  obtain ⟨imports, parts, inside⟩ := descends.topLevel
  rw [parts] at here
  exact List.mem_append.mpr ((List.mem_append.mp here).imp_right (inside id))

/-- A statement of the module that was read is one of those that there were. -/
theorem mem_topLevel_of_old {id : NodeId} (here : id ∈ u.topLevel) (old : id.index < t.size) :
    id ∈ t.topLevel := by
  obtain ⟨imports, parts, inside⟩ := descends.topLevel
  rw [parts] at here
  rcases List.mem_append.mp here with first | new
  · exact first
  · obtain ⟨i, listed, rfl⟩ := List.mem_map.mp (inside id new)
    exact absurd old (Nat.not_lt.mpr (descends.declared i listed).1)

theorem source_eq : u.source = t.source :=
  descends.places.text.source

/-- A node that was read, with what has become of it. -/
theorem exists_of_old {id : NodeId} {n : Node} (found : u.node? id = some n) (old : id.index < t.size) :
    ∃ m, t.node? id = some m ∧ m.kind.Becomes n.kind ∧ n.span = m.span ∧ t.spanOf id = m.span := by
  have first : t.node? id = some t.nodes[id.index] := Array.getElem?_eq_getElem old
  obtain ⟨kind, now, becomes⟩ := descends.becomes id _ (by rw [kind?, first, Option.map_some])
  rw [kind?, found, Option.map_some] at now
  have before : t.spanOf id = t.nodes[id.index].span := by rw [Tree.spanOf, first]; rfl
  have after : u.spanOf id = n.span := by rw [Tree.spanOf, found]; rfl
  refine ⟨_, first, Option.some.inj now ▸ becomes, ?_, before⟩
  rw [← before, ← after, descends.places.spanOf id old]

/-- A function with a body in braces is one that was read. -/
theorem function_of_blockBody {function : NodeId} {body : FunctionBody}
    (found : u.blockBody function = .ok body) : ∃ f, t.kind? function = some (.function f) ∧ f.body = some body := by
  obtain ⟨f, kind, here⟩ : ∃ f, u.kind? function = some (.function f) ∧ f.body = some body := by
    unfold blockBody at found
    cases inner : (u.function? function).bind (·.body) with
    | none =>
        rw [inner] at found
        cases found
    | some b =>
        rw [inner] at found
        obtain rfl := Except.ok.inj found
        obtain ⟨f, isFunction, here⟩ := Option.bind_eq_some_iff.mp inner
        refine ⟨f, ?_, here⟩
        unfold function? at isFunction
        cases kind : u.kind? function with
        | none => simp [kind] at isFunction
        | some k => cases k <;> simp_all
  refine ⟨f, ?_, here⟩
  by_cases old : function.index < t.size
  · obtain ⟨n, found, isFunction⟩ := Option.map_eq_some_iff.mp kind
    obtain ⟨m, first, becomes, -⟩ := descends.exists_of_old found old
    rw [isFunction] at becomes
    rw [kind?, first, Option.map_some]
    generalize m.kind = was at becomes
    cases becomes
    rfl
  · cases descends.new function _ (Nat.le_of_not_lt old) kind

variable (pristine : t.IsPristine)
include pristine

/-- An import of the source is one that was read, perhaps with names added to it if it accepts them. -/
theorem import_of_old {id : NodeId} {i : ImportNode} (isImport : u.import? id = some i)
    (old : id.index < t.size) : (u.spanOf id).isEmpty = false ∧ ∃ j added, t.import? id = some j ∧
      i = { j with added } ∧ (added = [] ∨ j.acceptsNames = true) := by
  obtain ⟨n, found, kind⟩ := Option.map_eq_some_iff.mp (import?_eq_some_iff.mp isImport)
  obtain ⟨m, first, becomes, same, before⟩ := descends.exists_of_old found old
  rw [kind] at becomes
  have solid {j : ImportNode} (isImport : m.kind = .importDeclaration j) :
      (u.spanOf id).isEmpty = false ∧ t.import? id = some j := by
    refine ⟨?_, import?_eq_some_iff.mpr (by rw [kind?, first, Option.map_some, isImport])⟩
    rw [descends.places.spanOf id old, before, Span.isEmpty, beq_eq_false_iff_ne]
    exact Nat.ne_of_lt (pristine.imports id m j first isImport).1
  generalize parsed : m.kind = was at becomes
  cases becomes with
  | same => exact ⟨(solid parsed).1, i, _, (solid parsed).2, rfl, .inl (pristine.imports id m i first parsed).2⟩
  | extended j added accepts => exact ⟨(solid parsed).1, j, added, (solid parsed).2, rfl, .inr accepts⟩

/-- A body in braces is one that was read. -/
theorem placed_of_blockBody {function : NodeId} {body : FunctionBody}
    (found : u.blockBody function = .ok body) :
    body.Placed (Cursor.start t.source) ∧ function ≠ root := by
  obtain ⟨f, kind, here⟩ := descends.function_of_blockBody found
  refine ⟨pristine.placed function _ kind body here, ?_⟩
  rintro rfl
  obtain ⟨m, isModule⟩ := pristine.isModule
  cases kind.symm.trans isModule

/-- A declaration in a body is inserted at the place for declarations there. -/
theorem inserts_state {function id : NodeId} {value setter callee : String}
    (edited : u.declareState function value setter callee = .ok (id, v)) :
    ∃ body, u.blockBody function = .ok body ∧ u.Inserts v (u.declarationPlace body).1 := by
  obtain ⟨body, found, -⟩ := declareState_eq edited
  exact inserts_declareState (descends.root_lt pristine) (descends.placed_of_blockBody pristine found).2 edited

theorem inserts_null {function id : NodeId} {name : String}
    (edited : u.declareNull function name = .ok (id, v)) :
    ∃ body, u.blockBody function = .ok body ∧ u.Inserts v (u.declarationPlace body).1 := by
  obtain ⟨body, found, -⟩ := declareNull_eq edited
  exact inserts_declareNull (descends.root_lt pristine) (descends.placed_of_blockBody pristine found).2 edited

/-- A declaration in a body goes to a place in the source. -/
theorem marks_declaration {function : NodeId} {body : FunctionBody} (found : u.blockBody function = .ok body) :
    (Cursor.start t.source).Marks (u.declarationPlace body).1 := by
  have placed := (descends.placed_of_blockBody pristine found).1
  rw [← descends.source_eq] at placed ⊢
  exact marks_declarationPlace placed

/-- What is in the source ends at a place in it. -/
theorem marks_stop {id : NodeId} (solid : (u.spanOf id).isEmpty = false) :
    (Cursor.start t.source).Marks (u.spanOf id).stop := by
  by_cases old : id.index < t.size
  · have found : t.node? id = some t.nodes[id.index] := Array.getElem?_eq_getElem old
    rw [descends.places.spanOf id old, Tree.spanOf, found]
    exact (pristine.spans id _ found).stop
  · have empty := descends.places.isEmpty id (Nat.le_of_not_lt old)
    rw [solid] at empty
    cases empty

/-- A new import is inserted at a place in the source. -/
theorem marks_import : (Cursor.start t.source).Marks u.importPlace.1 := by
  obtain ⟨m, isModule, placed⟩ := descends.isModule pristine
  rw [← descends.source_eq] at placed ⊢
  refine marks_importPlace (fun id solid => ?_) isModule placed
  rw [descends.source_eq]
  exact descends.marks_stop pristine solid

omit pristine in
theorem keepsPlaces_withImport (module : String) : t.KeepsPlaces (u.withImport module) := by
  have kept : u.KeepsPlaces (u.withImport module) :=
    (u.keepsPlaces_addNode _ root moduleScope _).trans (.of_spanOf ⟨rfl, rfl, rfl⟩ rfl fun _ => rfl)
  exact descends.places.trans kept

/-- A new import is inserted behind those of the source. -/
theorem withImport (module : String) : t.Descends (u.withImport module) :=
  descends.inserts pristine (inserts_withImport (descends.root_lt pristine) module)
    (descends.keepsPlaces_withImport module) (descends.marks_import pristine)

/-- Whatever edit is made, what has become of the tree is told in the same way. -/
theorem edit (e : Edit) : t.Descends (u.edit e) := by
  have places := descends.places.trans (u.keepsPlaces_edit e)
  revert places
  refine edit_cases (motive := fun _ v => t.KeepsPlaces v → t.Descends v) u (fun _ _ => descends) ?_ ?_ ?_ ?_ ?_ e
  · intro id name v edited _
    exact descends.rename pristine edited
  · intro p names v edited _
    obtain ⟨i, isImport, takes, rfl⟩ := addImportNames_eq edited
    refine descends.foldl_addImportedName pristine isImport (fun old => ?_) names
    rw [(descends.import_of_old pristine isImport old).1] at takes
    exact takes.resolve_left Bool.false_ne_true
  · intro module names _
    rw [insertImport_eq]
    exact (descends.withImport pristine module).foldl_addImportedName pristine (u.import?_withImport module)
      (fun old => absurd old (Nat.not_lt.mpr descends.size_le)) names
  · intro function value setter callee id v edited places
    obtain ⟨body, found, inserts⟩ := descends.inserts_state pristine edited
    exact descends.inserts pristine inserts places (descends.marks_declaration pristine found)
  · intro function name id v edited places
    obtain ⟨body, found, inserts⟩ := descends.inserts_null pristine edited
    exact descends.inserts pristine inserts places (descends.marks_declaration pristine found)

end Descends

/-- After any edits it is told what has become of a tree that was read. -/
theorem IsPristine.descends_editAll (pristine : t.IsPristine) (edits : List Edit) : t.Descends (t.editAll edits) :=
  editAll_induction pristine.descends (fun _ e descends => descends.edit pristine e) edits

namespace Accounts

variable (accounts : t.Accounts u) (pristine : t.IsPristine)
include accounts pristine

/-- A new import is accounted for. -/
theorem withImport (module : String) : t.Accounts (u.withImport module) :=
  accounts.inserts pristine (inserts_withImport (accounts.root_lt pristine) module)
    (accounts.keepsPlaces_withImport module) (accounts.marks_import pristine)

theorem edit (e : Edit) (allowed : u.allows e = true) : t.Accounts (u.edit e) := by
  have places := accounts.places.trans (u.keepsPlaces_edit e)
  revert allowed places
  refine edit_cases (motive := fun e v => u.allows e = true → t.KeepsPlaces v → t.Accounts v) u
    (fun _ _ _ => accounts) ?_ ?_ ?_ ?_ ?_ e
  · intro id name v edited _ _
    exact accounts.rename pristine edited
  · intro p names v edited allowed _
    obtain ⟨entry, listed, same⟩ := List.any_eq_true.mp allowed
    have topLevel := (mem_imports.mp listed).1
    rw [beq_iff_eq.mp same] at topLevel
    obtain ⟨i, isImport, takes, rfl⟩ := addImportNames_eq edited
    refine accounts.foldl_addImportedName pristine isImport (accounts.mem_sites topLevel) ?_ names
    intro old
    rw [(accounts.import_of_old pristine isImport old).1] at takes
    exact takes.resolve_left Bool.false_ne_true
  · intro module names _ _
    have inserts := inserts_withImport (accounts.root_lt pristine) module
    rw [insertImport_eq]
    refine (accounts.withImport pristine module).foldl_addImportedName pristine (u.import?_withImport module)
      ?_ (fun old => absurd old (Nat.not_lt.mpr accounts.size_le)) names
    rw [sites, inserts.nodes]
    exact List.mem_append_right _ (List.mem_append_right _ (List.mem_singleton_self _))
  · intro function value setter callee id v edited _ places
    obtain ⟨body, found, inserts⟩ := accounts.inserts_state pristine edited
    exact accounts.inserts pristine inserts places (accounts.marks_declaration pristine found)
  · intro function name id v edited _ places
    obtain ⟨body, found, inserts⟩ := accounts.inserts_null pristine edited
    exact accounts.inserts pristine inserts places (accounts.marks_declaration pristine found)

theorem editAll (edits : List Edit) (allowed : u.allowsAll edits = true) : t.Accounts (u.editAll edits) := by
  induction edits generalizing u with
  | nil => exact accounts
  | cons e edits ih =>
      obtain ⟨first, others⟩ := Bool.and_eq_true_iff.mp allowed
      exact ih (accounts.edit pristine e first) others

end Accounts

end Tree

end BindingRepair.Script
