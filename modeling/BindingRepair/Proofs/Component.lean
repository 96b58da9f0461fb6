/-
# The component of a growing tree

The first component of a module and the scope of its body stay the same while names are added to the
tree: no component begins at a new node, and the nodes that make one keep their kinds.
-/

import BindingRepair.Proofs.Edit

namespace BindingRepair.Script

namespace Tree

theorem findSome?_congr {α β : Type} {f g : α → Option β} {l : List α} (same : ∀ a ∈ l, f a = g a) :
    l.findSome? f = l.findSome? g := by
  induction l with
  | nil => rfl
  | cons a l ih =>
      rw [List.findSome?_cons, List.findSome?_cons, same a List.mem_cons_self,
        ih fun b here => same b (List.mem_cons_of_mem a here)]

variable {t u : Tree}

theorem Grows.size_le (grows : Grows t u) : t.size ≤ u.size := by
  rcases Nat.eq_zero_or_pos t.size with zero | positive
  · rw [zero]
    exact Nat.zero_le _
  · -- The last node of the tree is still there.
    have last : t.size - 1 < t.nodes.size := Nat.sub_one_lt_of_lt positive
    obtain ⟨m, found, -⟩ := grows.node ⟨t.size - 1⟩ _ (Array.getElem?_eq_getElem last)
    have kept : t.size - 1 < u.size := (Array.getElem?_eq_some_iff.mp found).choose
    omega

/-- A node and its kind before and after some growth. -/
theorem Grows.kind? (grows : Grows t u) {id : NodeId} {kind : NodeKind}
    (found : t.kind? id = some kind) :
    ∃ kind', u.kind? id = some kind' ∧
      (kind' = kind ∨ kind.isInert = true ∧ kind'.isInert = true) := by
  obtain ⟨n, foundNode, rfl⟩ := Option.map_eq_some_iff.mp found
  obtain ⟨m, found', nodeGrows⟩ := grows.node id n foundNode
  exact ⟨m.kind, by rw [Tree.kind?, found', Option.map_some], nodeGrows.kind⟩

/-- A kind that may not change does not. -/
theorem Grows.kind?_of_not_inert (grows : Grows t u) {id : NodeId} {kind : NodeKind}
    (found : t.kind? id = some kind) (active : kind.isInert = false) : u.kind? id = some kind := by
  obtain ⟨kind', found', same | ⟨inert, -⟩⟩ := grows.kind? found
  · rw [found', same]
  · rw [active] at inert
    cases inert

theorem Grows.childrenOf (grows : Grows t u) (id : NodeId) (bounded : id.index < t.size) :
    ∃ added, u.childrenOf id = t.childrenOf id ++ added ∧
      ∀ c ∈ added, ∃ kind, u.kind? c = some kind ∧ kind.isPlain = true := by
  have found : t.node? id = some t.nodes[id.index] := Array.getElem?_eq_getElem bounded
  obtain ⟨m, found', nodeGrows⟩ := grows.node id _ found
  obtain ⟨added, children, plain⟩ := nodeGrows.children
  refine ⟨added, ?_, plain⟩
  rw [Tree.childrenOf, Tree.childrenOf, found, found']
  exact children

/-- Which kind names what of a known node does not matter: the node exists. -/
theorem IsWellScoped.named_lt (wellScoped : t.IsWellScoped) {id : NodeId} {kind : NodeKind}
    (found : t.kind? id = some kind) {c : NodeId} (named : c ∈ kind.named) : c.index < t.size := by
  obtain ⟨n, foundNode, rfl⟩ := Option.map_eq_some_iff.mp found
  exact (wellScoped.inRange id.index n foundNode).named c named

theorem IsWellScoped.child_lt (wellScoped : t.IsWellScoped) {id c : NodeId}
    (child : c ∈ t.childrenOf id) : c.index < t.size := by
  unfold childrenOf at child
  cases found : t.node? id with
  | none => simp [found] at child
  | some n =>
      rw [found] at child
      exact (wellScoped.inRange id.index n found).children c (Array.mem_toList_iff.mp child)

section Growth

variable (grows : Grows t u) (wellScoped : t.IsWellScoped)
include grows

theorem Grows.function? {id : NodeId} (bounded : id.index < t.size) :
    u.function? id = t.function? id := by
  have found : t.kind? id = some t.nodes[id.index].kind := by
    rw [Tree.kind?, node?, Array.getElem?_eq_getElem bounded, Option.map_some]
  obtain ⟨kind', found', same | ⟨inert, inert'⟩⟩ := grows.kind? found
  · rw [Tree.function?, Tree.function?, found, found', same]
  · rw [Tree.function?, Tree.function?, found, found']
    cases first : t.nodes[id.index].kind <;> cases second : kind' <;>
      simp_all [NodeKind.isInert, NodeKind.isPlain]

theorem Grows.isCapitalized {name : Option NodeId} (known : ∀ n ∈ name, n.index < t.size) :
    u.isCapitalized name = t.isCapitalized name := by
  cases name with
  | none => rfl
  | some n => rw [Tree.isCapitalized, Tree.isCapitalized, Option.bind_some, Option.bind_some,
      grows.name? (known n rfl)]

omit grows in
theorem componentOfStatement?_of_isPlain {id : NodeId}
    (plain : ∃ kind, u.kind? id = some kind ∧ kind.isPlain = true) :
    u.componentOfStatement? id = none := by
  obtain ⟨kind, found, plain⟩ := plain
  rw [componentOfStatement?, found]
  cases kind with
  | function f => cases plain
  | exportDeclaration isDefault => cases plain
  | varDeclaration kind => cases plain
  | _ => rfl

omit grows in
theorem componentOfDeclarator?_of_isPlain {id : NodeId}
    (plain : ∃ kind, u.kind? id = some kind ∧ kind.isPlain = true) :
    u.componentOfDeclarator? id = none := by
  obtain ⟨kind, found, plain⟩ := plain
  rw [componentOfDeclarator?, found]
  cases kind with
  | declarator d => cases plain
  | _ => rfl

include wellScoped

theorem Grows.componentOfDeclarator? {id : NodeId} (bounded : id.index < t.size) :
    u.componentOfDeclarator? id = t.componentOfDeclarator? id := by
  have found : t.kind? id = some t.nodes[id.index].kind := by
    rw [Tree.kind?, node?, Array.getElem?_eq_getElem bounded, Option.map_some]
  cases kind : t.nodes[id.index].kind with
  | declarator d =>
      rw [kind] at found
      have found' := grows.kind?_of_not_inert found rfl
      have name : ∀ n ∈ d.name, n.index < t.size := fun n here =>
        wellScoped.named_lt found (List.mem_append_left _ (Option.mem_toList.mpr here))
      have function : ∀ f ∈ d.function, f.index < t.size := fun f here =>
        wellScoped.named_lt found (List.mem_append_right _ (Option.mem_toList.mpr here))
      rw [Tree.componentOfDeclarator?, Tree.componentOfDeclarator?, found, found']
      dsimp only
      cases here : d.function with
      | none => rfl
      | some f =>
          rw [grows.isCapitalized name]
          simp only [bind, Option.bind, grows.function? (function f here)]
  | function _ | varDeclaration _ | exportDeclaration _ =>
      rw [kind] at found
      rw [Tree.componentOfDeclarator?, Tree.componentOfDeclarator?, found,
        grows.kind?_of_not_inert found rfl]
  | _ =>
      have plain : ∃ kind, t.kind? id = some kind ∧ kind.isPlain = true :=
        ⟨_, found, by rw [kind]; rfl⟩
      rw [componentOfDeclarator?_of_isPlain plain,
        componentOfDeclarator?_of_isPlain (grows.isPlain plain)]

/-- Whether a component begins at a node is not changed by growth. The induction follows the export
declarations, whose children come after them. -/
theorem Grows.componentOfStatement? {id : NodeId} (bounded : id.index < t.size) :
    u.componentOfStatement? id = t.componentOfStatement? id := by
  have found : t.kind? id = some t.nodes[id.index].kind := by
    rw [Tree.kind?, node?, Array.getElem?_eq_getElem bounded, Option.map_some]
  obtain ⟨added, children, plain⟩ := grows.childrenOf _ bounded
  cases kind : t.nodes[id.index].kind with
  | function f =>
      rw [kind] at found
      have name : ∀ n ∈ f.name, n.index < t.size := fun n here =>
        wellScoped.named_lt found (Option.mem_toList.mpr here)
      rw [Tree.componentOfStatement?, Tree.componentOfStatement?, found,
        grows.kind?_of_not_inert found rfl]
      simp only [grows.isCapitalized name]
  | exportDeclaration isDefault =>
      rw [kind] at found
      rw [Tree.componentOfStatement?, Tree.componentOfStatement?, found,
        grows.kind?_of_not_inert found rfl]
      simp only [children, List.findSome?_append]
      have old : (t.childrenOf id).findSome? (fun c =>
            if id.index < c.index ∧ c.index < u.size then u.componentOfStatement? c else none) =
          (t.childrenOf id).findSome? fun c =>
            if id.index < c.index ∧ c.index < t.size then t.componentOfStatement? c else none := by
        refine findSome?_congr fun c child => ?_
        have within := wellScoped.child_lt child
        have within' := Nat.lt_of_lt_of_le within grows.size_le
        by_cases later : id.index < c.index
        · rw [if_pos ⟨later, within'⟩, if_pos ⟨later, within⟩]
          exact Grows.componentOfStatement? within
        · rw [if_neg fun both => later both.1, if_neg fun both => later both.1]
      have new : added.findSome? (fun c =>
          if id.index < c.index ∧ c.index < u.size then u.componentOfStatement? c else none) =
          none := by
        refine List.findSome?_eq_none_iff.mpr fun c child => ?_
        rw [componentOfStatement?_of_isPlain (plain c child), ite_self]
      rw [old, new, Option.or_none]
  | varDeclaration varKind =>
      rw [kind] at found
      rw [Tree.componentOfStatement?, Tree.componentOfStatement?, found,
        grows.kind?_of_not_inert found rfl]
      simp only [children, List.findSome?_append]
      have old : (t.childrenOf id).findSome? u.componentOfDeclarator? =
          (t.childrenOf id).findSome? t.componentOfDeclarator? :=
        findSome?_congr fun c child =>
          grows.componentOfDeclarator? wellScoped (wellScoped.child_lt child)
      have new : added.findSome? u.componentOfDeclarator? = none :=
        List.findSome?_eq_none_iff.mpr fun c child =>
          componentOfDeclarator?_of_isPlain (plain c child)
      rw [old, new, Option.or_none]
  | declarator _ =>
      rw [kind] at found
      rw [Tree.componentOfStatement?, Tree.componentOfStatement?, found,
        grows.kind?_of_not_inert found rfl]
  | _ =>
      have still : ∃ kind, t.kind? id = some kind ∧ kind.isPlain = true :=
        ⟨_, found, by rw [kind]; rfl⟩
      rw [componentOfStatement?_of_isPlain still,
        componentOfStatement?_of_isPlain (grows.isPlain still)]
termination_by t.size - id.index

end Growth

/-! ### The first component -/

/-- The scope of the body of the first component. -/
def componentScope? (t : Tree) : Option ScopeId :=
  t.firstComponent?.bind t.bodyScope?

/-- A component is a function of the tree. -/
theorem function?_of_componentOfDeclarator? {id c : NodeId}
    (found : t.componentOfDeclarator? id = some c) : ∃ f, t.function? c = some f := by
  unfold componentOfDeclarator? at found
  split at found
  · rename_i d _
    cases function : d.function with
    | none => simp [function] at found
    | some g =>
        cases node : t.function? g with
        | none => simp [function, node] at found
        | some f =>
            simp only [function, node, bind, Option.bind] at found
            split at found
            · cases found
              exact ⟨f, node⟩
            · cases found
  · cases found

theorem function?_of_componentOfStatement? {id c : NodeId}
    (found : t.componentOfStatement? id = some c) : ∃ f, t.function? c = some f := by
  induction id using componentOfStatement?.induct t with
  | case1 id f kind named =>
      rw [componentOfStatement?, kind] at found
      dsimp only at found
      rw [if_pos named, Option.some.injEq] at found
      exact ⟨f, by rw [function?, ← found, kind]⟩
  | case2 id f kind other =>
      rw [componentOfStatement?, kind] at found
      dsimp only at found
      rw [if_neg other] at found
      cases found
  | case3 id isDefault kind ih =>
      rw [componentOfStatement?, kind] at found
      obtain ⟨child, -, found⟩ := List.exists_of_findSome?_eq_some found
      split at found
      · rename_i later
        exact ih child later found
      · cases found
  | case4 id varKind kind =>
      rw [componentOfStatement?, kind] at found
      obtain ⟨child, -, found⟩ := List.exists_of_findSome?_eq_some found
      exact function?_of_componentOfDeclarator? found
  | case5 id notFunction notExport notVariables =>
      rw [componentOfStatement?] at found
      split at found
      · exact absurd ‹_› (notFunction _)
      · exact absurd ‹_› (notExport _)
      · exact absurd ‹_› (notVariables _)
      · cases found

theorem lt_size_of_function? {c : NodeId} {f : FunctionNode} (found : t.function? c = some f) :
    c.index < t.size := by
  unfold function? kind? at found
  cases node : t.node? c with
  | none => simp [node] at found
  | some n => exact (Array.getElem?_eq_some_iff.mp node).choose

theorem Grows.firstComponent? (grows : Grows t u) (wellScoped : t.IsWellScoped)
    (nonempty : 0 < t.size) : u.firstComponent? = t.firstComponent? := by
  obtain ⟨added, children, plain⟩ := grows.childrenOf root nonempty
  rw [Tree.firstComponent?, Tree.firstComponent?, topLevel, topLevel, children,
    List.findSome?_append]
  have old : (t.childrenOf root).findSome? u.componentOfStatement? =
      (t.childrenOf root).findSome? t.componentOfStatement? :=
    findSome?_congr fun c child =>
      grows.componentOfStatement? wellScoped (wellScoped.child_lt child)
  have new : added.findSome? u.componentOfStatement? = none :=
    List.findSome?_eq_none_iff.mpr fun c child => componentOfStatement?_of_isPlain (plain c child)
  rw [old, new, Option.or_none]

theorem Grows.componentScope? (grows : Grows t u) (wellScoped : t.IsWellScoped)
    (nonempty : 0 < t.size) : u.componentScope? = t.componentScope? := by
  rw [Tree.componentScope?, Tree.componentScope?, grows.firstComponent? wellScoped nonempty]
  cases first : t.firstComponent? with
  | none => rfl
  | some c =>
      obtain ⟨statement, -, found⟩ := List.exists_of_findSome?_eq_some first
      obtain ⟨f, function⟩ := function?_of_componentOfStatement? found
      rw [Option.bind_some, Option.bind_some, bodyScope?, bodyScope?,
        grows.function? (lt_size_of_function? function)]

end Tree

end BindingRepair.Script
