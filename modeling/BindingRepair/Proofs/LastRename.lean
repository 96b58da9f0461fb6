/-
# Renaming a binding again

A rename takes a binding from the list of one name to the end of the list of another, and notes the name
that the source has. A second rename leaves no trace of the first: the name between is given up together
with the list that was opened for it, and the note is not made again. So of many renames of a binding only
the last one counts.
-/

import BindingRepair.Proofs.NameIndex
import BindingRepair.Script.Printer

namespace BindingRepair.Script

/-- The name in the source is noted by the first rename only. -/
theorem IdentifierNode.renamed_renamed (i : IdentifierNode) (first second : String) :
    (i.renamed first).renamed second = i.renamed second := by
  unfold renamed
  cases i.renamedFrom <;> cases i.synthesized <;> rfl

namespace Tree

/-- The tree with another identifier at a node, which is listed under its new name and no longer under
the one before. -/
def renamedAt (t : Tree) (id : NodeId) (old : String) (i : IdentifierNode) : Tree :=
  { t with
    nodes := t.nodes.modify id.index fun n => { n with kind := .identifier i }
    scopes := (t.scopes.undeclare (t.scopeOf id) old id).declare (t.scopeOf id) i.name id }

variable {t : Tree} {id : NodeId} {i : IdentifierNode}

/-- A binding can always be renamed. -/
theorem rename_of_binding (identifier : t.identifier? id = some i) (binds : i.site?.isSome = true)
    (name : String) : t.rename id name = .ok (t.renamedAt id i.name (i.renamed name)) := by
  have some : ¬i.site?.isNone = true := by
    rw [← Option.not_isSome, binds]
    exact Bool.false_ne_true
  rw [rename, identifier]
  exact if_neg some

theorem rename_of_no_binding (other : ∀ i, t.identifier? id = some i → i.site? = none) (name : String) :
    t.rename id name = .error (.notABinding id) := by
  unfold rename
  cases identifier : t.identifier? id with
  | none => rfl
  | some i =>
      dsimp only
      rw [other i identifier]
      rfl

theorem node?_renamedAt {n : Node} (found : t.node? id = some n) (old : String) (i : IdentifierNode) :
    (t.renamedAt id old i).node? id = some { n with kind := .identifier i } := by
  show (t.modifyNode id _).node? id = _
  rw [node?_modifyNode, if_pos rfl, found]
  rfl

theorem scopeOf_renamedAt {n : Node} (found : t.node? id = some n) (old : String) (i : IdentifierNode) :
    (t.renamedAt id old i).scopeOf id = t.scopeOf id := by
  rw [scopeOf, scopeOf, node?_renamedAt found, found]
  rfl

/-- Of two identifiers that a node is given in turn only the second remains, if the scope of the node did
not list it under the name of the first. -/
theorem renamedAt_renamedAt {n : Node} (found : t.node? id = some n) {old : String}
    (tidy : ((t.scopes.undeclare (t.scopeOf id) old id).bindingsOf (t.scopeOf id)).Tidy)
    (absent : id ∉ ((t.scopes.undeclare (t.scopeOf id) old id).bindingsOf (t.scopeOf id)).nodesOf i.name)
    (j : IdentifierNode) : (t.renamedAt id old i).renamedAt id i.name j = t.renamedAt id old j := by
  have nodes : ((t.renamedAt id old i).nodes.modify id.index fun n => { n with kind := .identifier j }) =
      t.nodes.modify id.index fun n => { n with kind := .identifier j } := by
    refine Array.ext_getElem? fun k => ?_
    simp only [renamedAt, Array.getElem?_modify]
    split
    · exact Option.map_map ..
    · rfl
  have scopes : (t.renamedAt id old i).scopes.undeclare (t.scopeOf id) i.name id =
      t.scopes.undeclare (t.scopeOf id) old id :=
    ScopeForest.undeclare_declare tidy absent
  rw [renamedAt, scopeOf_renamedAt found, scopes, nodes]
  rfl

/-- Give a node one name and then another: it is as if it had been given the second at once. -/
theorem IsIndexed.rename_rename (indexed : t.IsIndexed) (id : NodeId) (first second : String) :
    (t.rename id first >>= fun u => u.rename id second) = t.rename id second := by
  by_cases other : ∀ i, t.identifier? id = some i → i.site? = none
  · rw [rename_of_no_binding other, rename_of_no_binding other]
    rfl
  push Not at other
  obtain ⟨i, identifier, site⟩ := other
  have binds : i.site?.isSome = true := Option.isSome_iff_ne_none.mpr site
  obtain ⟨n, found, -⟩ := identifier?_eq_some_iff.mp identifier
  have identifier' : (t.renamedAt id i.name (i.renamed first)).identifier? id = some (i.renamed first) :=
    identifier?_eq_some_iff.mpr ⟨_, node?_renamedAt found _ _, rfl⟩
  -- Once the old name is given up, the node is in no list of its scope.
  have given := indexed.undeclare (t.scopeOf id) i.name id
  have absent : id ∉
      ((t.scopes.undeclare (t.scopeOf id) i.name id).bindingsOf (t.scopeOf id)).nodesOf first := by
    rw [given.mem_iff]
    rintro ⟨still, remains⟩
    exact remains ⟨rfl, rfl, still.name_eq (binds_of_identifier? identifier binds)⟩
  calc (t.rename id first >>= fun u => u.rename id second)
    _ = (t.renamedAt id i.name (i.renamed first)).rename id second := by
        rw [rename_of_binding identifier binds]
        rfl
    _ = .ok ((t.renamedAt id i.name (i.renamed first)).renamedAt id first (i.renamed second)) := by
        rw [rename_of_binding identifier' binds, IdentifierNode.renamed_renamed]
        rfl
    _ = .ok (t.renamedAt id i.name (i.renamed second)) :=
        congrArg _ (renamedAt_renamedAt (i := i.renamed first) found (given.tidy _) absent _)
    _ = t.rename id second := (rename_of_binding identifier binds second).symm

/-- Gives a node one name after another. -/
def renameAll (t : Tree) (id : NodeId) (names : List String) : Except EditError Tree :=
  names.foldlM (fun u name => u.rename id name) t

theorem IsIndexed.renameAll_concat (indexed : t.IsIndexed) (wellScoped : t.IsWellScoped) (id : NodeId)
    (names : List String) (last : String) : t.renameAll id (names ++ [last]) = t.rename id last := by
  induction names generalizing t with
  | nil => exact bind_pure _
  | cons name names ih =>
      rw [← indexed.rename_rename id name last, renameAll, List.cons_append, List.foldlM_cons]
      cases renamed : t.rename id name with
      | error e => rfl
      | ok u =>
          exact ih (indexed.rename wellScoped renamed) (renames_rename wellScoped renamed).choose_spec.2.wellScoped

end Tree

/-- Only the last rename of a binding counts. Whatever edits have been made of a parsed tree, and whether
or not a name is bound already, is the current one or the one in the source: renaming a binding twice
gives the tree that the second rename alone gives, with all of its tables as they stand in order, and so
does any sequence of renames that ends in the same name. That tree exists, and is printed the same. -/
theorem only_last_rename_counts {source : String} {dialect : Dialect} {t : Tree}
    (parsed : parse source dialect = .ok t) (edits : List Edit) (id : NodeId) :
    let u := t.editAll edits
    (∀ first second : String, (u.rename id first >>= fun v => v.rename id second) = u.rename id second) ∧
    ∀ (names : List String) (last : String),
      u.renameAll id (names ++ [last]) = u.rename id last ∧
      (u.renameAll id (names ++ [last])).map Tree.print = (u.rename id last).map Tree.print ∧
      ∀ i, u.identifier? id = some i → i.site?.isSome = true → ∃ v, u.rename id last = .ok v := by
  have invariant : (t.editAll edits).IsWellScoped ∧ (t.editAll edits).IsIndexed :=
    Tree.editAll_induction (motive := fun u => u.IsWellScoped ∧ u.IsIndexed)
      ⟨isWellScoped_of_parse parsed, indexed_of_parse parsed⟩
      (fun _ e sound => ⟨sound.1.edit e, sound.2.edit sound.1 e⟩) edits
  obtain ⟨wellScoped, indexed⟩ := invariant
  refine ⟨indexed.rename_rename id, fun names last => ?_⟩
  have same := indexed.renameAll_concat wellScoped id names last
  refine ⟨same, by rw [same], fun i identifier binds => ?_⟩
  exact ⟨_, Tree.rename_of_binding identifier binds last⟩

set_option maxRecDepth 100000 in
/-- A binding passes through the name of an import, the name bound beside it and its own. -/
theorem last_rename_among_clashes : ∃ t v,
    parse "let f = 1, \x7b g \x7d = f" .javascript = .ok t ∧
      (t.editAll [.insertImport "m" ["h"]]).renameAll ⟨5⟩ ["h", "f", "g", "k"] = .ok v ∧
      v.scopes.bindingsOf ⟨0⟩ = [("f", [⟨3⟩]), ("h", [⟨8⟩]), ("k", [⟨5⟩])] := by
  obtain ⟨t, parsed, test⟩ := exists_ok_of_test (parse "let f = 1, \x7b g \x7d = f" .javascript)
    (fun t => ((t.editAll [.insertImport "m" ["h"]]).rename ⟨5⟩ "k").toOption.any
      (·.scopes.bindingsOf ⟨0⟩ == [("f", [⟨3⟩]), ("h", [⟨8⟩]), ("k", [⟨5⟩])])) (by decide +kernel)
  have last := ((only_last_rename_counts parsed [.insertImport "m" ["h"]] ⟨5⟩).2 ["h", "f", "g"] "k").1
  cases renamed : (t.editAll [.insertImport "m" ["h"]]).rename ⟨5⟩ "k" with
  | error e =>
      rw [renamed] at test
      cases test
  | ok v =>
      rw [renamed] at test
      exact ⟨t, v, parsed, last.trans renamed, beq_iff_eq.mp test⟩

end BindingRepair.Script
