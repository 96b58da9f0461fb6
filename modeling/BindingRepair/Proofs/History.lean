/-
# Histories of edits

An edit as data, with all that it is given, and the tree after it. An edit that fails leaves the tree as
it was. What every edit keeps is kept by any sequence of edits.
-/

import BindingRepair.Proofs.Edit

namespace BindingRepair.Script

inductive Edit
  | rename (id : NodeId) (name : String)
  | addImportNames (importId : NodeId) (names : List String)
  | insertImport (module : String) (names : List String)
  | declareState (function : NodeId) (value setter callee : String)
  | declareNull (function : NodeId) (name : String)
deriving DecidableEq, Repr

namespace Tree

/-- The edited tree, or the tree before if the edit has failed. -/
def orKept (t : Tree) : Except EditError Tree → Tree
  | .ok u => u
  | .error _ => t

/-- The tree after an edit. -/
def edit (t : Tree) : Edit → Tree
  | .rename id name => t.orKept (t.rename id name)
  | .addImportNames importId names => t.orKept (t.addImportNames importId names)
  | .insertImport module names => (t.insertImport module names).2
  | .declareState function value setter callee =>
    t.orKept ((·.2) <$> t.declareState function value setter callee)
  | .declareNull function name => t.orKept ((·.2) <$> t.declareNull function name)

/-- The tree after edits, one after another. -/
def editAll (t : Tree) (edits : List Edit) : Tree :=
  edits.foldl edit t

/-- The cases of an edit: it fails, or it is one of the five. -/
theorem edit_cases {motive : Edit → Tree → Prop} (t : Tree) (failed : ∀ e, motive e t)
    (rename : ∀ id name u, t.rename id name = .ok u → motive (.rename id name) u)
    (addImportNames : ∀ importId names u, t.addImportNames importId names = .ok u →
      motive (.addImportNames importId names) u)
    (insertImport : ∀ module names, motive (.insertImport module names) (t.insertImport module names).2)
    (declareState : ∀ function value setter callee id u,
      t.declareState function value setter callee = .ok (id, u) →
      motive (.declareState function value setter callee) u)
    (declareNull : ∀ function name id u, t.declareNull function name = .ok (id, u) →
      motive (.declareNull function name) u) (e : Edit) : motive e (t.edit e) := by
  cases e with
  | rename id name =>
      cases result : t.rename id name with
      | ok u => simpa [edit, result, orKept] using rename id name u result
      | error e => simpa [edit, result, orKept] using failed _
  | addImportNames importId names =>
      cases result : t.addImportNames importId names with
      | ok u => simpa [edit, result, orKept] using addImportNames importId names u result
      | error e => simpa [edit, result, orKept] using failed _
  | insertImport module names => exact insertImport module names
  | declareState function value setter callee =>
      cases result : t.declareState function value setter callee with
      | ok found => simpa [edit, result, orKept] using declareState _ _ _ _ found.1 found.2 result
      | error e => simpa [edit, result, orKept] using failed _
  | declareNull function name =>
      cases result : t.declareNull function name with
      | ok found => simpa [edit, result, orKept] using declareNull _ _ found.1 found.2 result
      | error e => simpa [edit, result, orKept] using failed _

/-- What each edit keeps is kept by all of them. -/
theorem editAll_induction {motive : Tree → Prop} {t : Tree} (start : motive t)
    (each : ∀ t e, motive t → motive (t.edit e)) (edits : List Edit) : motive (t.editAll edits) := by
  induction edits generalizing t with
  | nil => exact start
  | cons e edits ih => exact ih (each t e start)

/-! ### Nodes and scopes -/

variable {t u : Tree}

/-- What a declaration in a function comes to: a statement, its names, and its place. -/
theorem declareState_eq {function id : NodeId} {value setter callee : String}
    (edited : t.declareState function value setter callee = .ok (id, u)) :
    ∃ body, t.blockBody function = .ok body ∧ id = ⟨t.size⟩ ∧
      let statement := (t.addNode .statement function body.scope (body.opening + 1)).2
      let first := statement.addBinding ⟨t.size⟩ body.scope value .const
      let second := first.2.addBinding ⟨t.size⟩ body.scope setter .const
      u = second.2.synthesize ⟨t.size⟩ (.state first.1 second.1 callee) body := by
  unfold declareState at edited
  cases found : t.blockBody function with
  | error e =>
      rw [found] at edited
      cases edited
  | ok body =>
      rw [found] at edited
      cases edited
      exact ⟨body, rfl, rfl, rfl⟩

theorem declareNull_eq {function id : NodeId} {name : String}
    (edited : t.declareNull function name = .ok (id, u)) :
    ∃ body, t.blockBody function = .ok body ∧ id = ⟨t.size⟩ ∧
      let statement := (t.addNode .statement function body.scope (body.opening + 1)).2
      let first := statement.addBinding ⟨t.size⟩ body.scope name .let
      u = first.2.synthesize ⟨t.size⟩ (.null first.1) body := by
  unfold declareNull at edited
  cases found : t.blockBody function with
  | error e =>
      rw [found] at edited
      cases edited
  | ok body =>
      rw [found] at edited
      cases edited
      exact ⟨body, rfl, rfl, rfl⟩

theorem IsWellScoped.edit (wellScoped : t.IsWellScoped) (e : Edit) : (t.edit e).IsWellScoped := by
  refine edit_cases (motive := fun _ u => u.IsWellScoped) t (fun _ => wellScoped) ?_ ?_ ?_ ?_ ?_ e
  · intro id name u edited
    obtain ⟨old, -, renames⟩ := renames_rename wellScoped edited
    exact renames.wellScoped
  · exact fun importId names u edited => (declares_addImportNames wellScoped edited).wellScoped
  · exact fun module names => (declares_insertImport wellScoped module names).wellScoped
  · intro function value setter callee id u edited
    obtain ⟨body, found, rfl, rfl⟩ := declareState_eq edited
    have bounded := wellScoped.bodyScope_lt (bodyScope?_of_blockBody found)
    have statement := declares_statement wellScoped function (body.opening + 1) bounded
    have first := statement.wellScoped.addBinding ⟨t.size⟩ value .const bounded
    have second := IsWellScoped.addBinding ⟨t.size⟩ setter .const first
      (bounded.trans_eq (ScopeForest.sameShape_declare ..).size_eq.symm)
    have inert := (grows_addBinding _ ⟨t.size⟩ body.scope setter .const).isInert
      ((grows_addBinding _ ⟨t.size⟩ body.scope value .const).isInert
        (t.isInert_statement function body.scope (body.opening + 1)))
    refine (declares_synthesize second inert (fun c here => ?_) body body.scope).wellScoped
    rw [NodeKind.named, List.mem_cons, List.mem_singleton] at here
    rcases here with rfl | rfl
    · simp
    · simp
  · intro function name id u edited
    obtain ⟨body, found, rfl, rfl⟩ := declareNull_eq edited
    have bounded := wellScoped.bodyScope_lt (bodyScope?_of_blockBody found)
    have statement := declares_statement wellScoped function (body.opening + 1) bounded
    have first := statement.wellScoped.addBinding ⟨t.size⟩ name .let bounded
    have inert := (grows_addBinding _ ⟨t.size⟩ body.scope name .let).isInert
      (t.isInert_statement function body.scope (body.opening + 1))
    refine (declares_synthesize first inert (fun c here => ?_) body body.scope).wellScoped
    rw [List.mem_singleton.mp here]
    simp

end Tree

end BindingRepair.Script
