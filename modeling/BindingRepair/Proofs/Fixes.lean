/-
# What fixes change

An import declares the names that it writes in the module, a declaration in the body of the first
component, where no use saw them before. A rename gives a name away that nothing uses, and takes one
that nothing in reach uses, so it changes no use at all.
-/

import BindingRepair.Proofs.Component
import BindingRepair.Proofs.SuffixSearch
import BindingRepair.Repair.Progress

namespace BindingRepair

open Text Script

namespace Script.Tree

variable {t u : Tree}

/-! ### Fresh names -/

theorem isFree_of_freshName? {s : ScopeId} {use : NameUse} {globals : NameSet} {attempts : Nat}
    {name fresh : String} (found : t.freshName? s use globals attempts name = some fresh) :
    t.isFree s use globals fresh = true := by
  obtain ⟨n, -, -, free, -⟩ := freshName?_eq_some_iff.mp found
  exact free

theorem unseen_of_isFree {s : ScopeId} {use : NameUse} {globals : NameSet} {name : String}
    (free : t.isFree s use globals name = true) : t.scopes.resolve? s name = none := by
  unfold isFree isVisible at free
  simp only [Bool.and_eq_true, Bool.not_eq_true', Option.isSome_eq_false_iff, Option.isNone_iff_eq_none]
    at free
  exact free.1.2

/-! ### Uses of names -/

/-- What a use refers to is told by its name and its scope. -/
theorem resolve?_of_name? {r : NodeId} {name : String} (named : t.name? r = some name) :
    t.resolve? r = t.scopes.resolve? (t.scopeOf r) name := by
  rw [resolve?, named]
  rfl

theorem IsWellScoped.exists_name? (wellScoped : t.IsWellScoped) {r : NodeId}
    (here : r ∈ t.references) : ∃ name, t.name? r = some name := by
  obtain ⟨i, found, -⟩ := wellScoped.identifier?_of_mem here
  exact ⟨i.name, by rw [name?, found, Option.map_some]⟩

/-- A reference finds a name that is declared around it if it found nothing before. -/
theorem Declares.resolve?_reference {scope : ScopeId} {names : List String}
    (declares : Declares t u scope names) (wellScoped : t.IsWellScoped) {r : NodeId}
    (here : r ∈ t.references) {name : String} (named : t.name? r = some name) :
    u.resolve? r =
      if name ∈ names ∧ t.scopes.isWithin (t.scopeOf r) scope = true ∧ t.resolve? r = none then
        some scope
      else t.resolve? r := by
  have uses := declares.grows.sameUses wellScoped
  rw [resolve?_of_name? named, resolve?_of_name? ((uses.name? r here).trans named),
    uses.scopeOf r here, declares.resolve? _ _ (wellScoped.scopeOf_lt r)]
  simp only [ScopeForest.isWithin, List.contains_iff_mem]

/-- No reference inside a scope has a name that can be bound there by a rename: it would find the name
neither in the scope nor below, and finding it outside would be a capture. -/
theorem not_isWithin_of_isFree (wellScoped : t.IsWellScoped) {s : ScopeId} {globals : NameSet}
    {name : String} (free : t.isFree s .rename globals name = true) {r : NodeId}
    (here : r ∈ t.references) (named : t.name? r = some name) :
    t.scopes.isWithin (t.scopeOf r) s = false := by
  unfold isFree at free
  simp only [Bool.and_eq_true, Bool.not_eq_true'] at free
  obtain ⟨-, below, capture⟩ := free
  cases within : t.scopes.isWithin (t.scopeOf r) s with
  | false => rfl
  | true =>
      -- The search for captures would have stopped at this reference.
      unfold wouldCapture at capture
      rw [Array.any_eq_false'] at capture
      have missed := capture r here
      cases found : t.scopes.resolve? (t.scopeOf r) name with
      | none => simp [named, within, found] at missed
      | some scope =>
          have inside : t.scopes.isWithin scope s = true := by
            simpa [named, within, found] using missed
          have unbound := ScopeForest.not_binds_of_not_bindsBelow wellScoped.forest below
            (List.contains_iff_mem.mp inside)
          rw [ScopeForest.binds_of_resolve? found] at unbound
          cases unbound

/-- A rename of an unused binding to a name that is free for it changes no use. -/
theorem Renames.resolve?_reference {id : NodeId} {old new : String} {globals : NameSet}
    (renames : Renames t u id old new) (wellScoped : t.IsWellScoped) (named : t.name? id = some old)
    (unreferenced : t.isReferenced id = false)
    (free : t.isFree (t.scopeOf id) .rename globals new = true) {r : NodeId}
    (here : r ∈ t.references) : u.resolve? r = t.resolve? r := by
  obtain ⟨name, namedUse⟩ := wellScoped.exists_name? here
  rw [resolve?_of_name? namedUse, resolve?_of_name? ((renames.uses.name? r here).trans namedUse),
    renames.uses.scopeOf r here, renames.scopes]
  have forgotten (s : ScopeId) (other : String)
      (unused : other = old → t.scopes.resolve? s other ≠ some (t.scopeOf id)) :=
    ScopeForest.resolve?_undeclare id unused
  have unused : name = old → t.scopes.resolve? (t.scopeOf r) name ≠ some (t.scopeOf id) := by
    rintro rfl found
    unfold isReferenced at unreferenced
    rw [named] at unreferenced
    dsimp only at unreferenced
    rw [Array.any_eq_false'] at unreferenced
    exact unreferenced r here (by simp [namedUse, found])
  have unseen : (t.scopes.undeclare (t.scopeOf id) old id).resolve? (t.scopeOf id) new = none := by
    rw [forgotten _ _ fun _ => by rw [unseen_of_isFree free]; nofun]
    exact unseen_of_isFree free
  have shape := t.scopes.sameShape_undeclare (t.scopeOf id) old id
  rw [ScopeForest.resolve?_declare (wellScoped.forest.of_sameShape shape)
    (by rw [shape.size_eq]; exact wellScoped.scopeOf_lt id) unseen, if_neg, forgotten _ _ unused]
  rintro ⟨rfl, inside, -⟩
  rw [ScopeForest.chain_of_sameShape shape] at inside
  have outside := not_isWithin_of_isFree wellScoped free here namedUse
  rw [ScopeForest.isWithin, List.contains_iff_mem.mpr inside] at outside
  cases outside

end Script.Tree

/-! ### Carrying out a fix -/

namespace Progress

open Script.Tree

variable {p next : Progress} {written : List String}

theorem eq_ok_of_edited {α : Type} {edit : Except EditError α} {a : α}
    (ok : edited edit = .ok a) : edit = .ok a := by
  cases edit with
  | error e => cases ok
  | ok b =>
      cases ok
      rfl

/-- A computation that succeeds has succeeded in each of its parts. -/
theorem of_bind_eq_ok {ε α β : Type} {first : Except ε α} {rest : α → Except ε β} {b : β}
    (ok : first >>= rest = .ok b) : ∃ a, first = .ok a ∧ rest a = .ok b := by
  cases first with
  | error e => cases ok
  | ok a => exact ⟨a, rfl, ok⟩

/-- An import that is carried out writes the names that are not bound in the module, to the declaration that they
are merged into or, if there is none, to a new one, which is remembered. -/
theorem mergeImport_ok {module : String} {names : NameSet} {onlyIfImported : Bool}
    (ok : p.mergeImport module names onlyIfImported = .ok (written, next)) :
    written = names.filter (fun name => !p.tree.scopes.binds moduleScope name) ∧
      ((∃ id, (p.openImport? module <|> p.newImports.lookup module) = some id ∧
          p.tree.addImportNames id written = .ok next.tree ∧ next.newImports = p.newImports) ∨
        (p.openImport? module <|> p.newImports.lookup module) = none ∧ onlyIfImported = false ∧
          next.tree = (p.tree.insertImport module written).2 ∧
          next.newImports =
            p.newImports.insert SortedTable.nameBefore module (p.tree.insertImport module written).1) := by
  unfold mergeImport at ok
  dsimp only at ok
  split at ok
  · cases ok
  · split at ok
    · rename_i id target
      cases result : edited (p.tree.addImportNames id
          (names.filter fun name => !p.tree.scopes.binds moduleScope name)) with
      | error e =>
          rw [result] at ok
          cases ok
      | ok tree =>
          rw [result] at ok
          cases ok
          exact ⟨rfl, .inl ⟨id, target, eq_ok_of_edited result, rfl⟩⟩
    · rename_i target
      split at ok
      · cases ok
      · rename_i unconditional
        cases ok
        exact ⟨rfl, .inr ⟨target, by simpa using unconditional, rfl, rfl⟩⟩

theorem declares_mergeImport {module : String} {names : NameSet} {onlyIfImported : Bool}
    (wellScoped : p.tree.IsWellScoped)
    (ok : p.mergeImport module names onlyIfImported = .ok (written, next)) :
    Declares p.tree next.tree moduleScope written := by
  obtain ⟨-, ⟨id, -, edited, -⟩ | ⟨-, -, inserted, -⟩⟩ := mergeImport_ok ok
  · exact declares_addImportNames wellScoped edited
  · rw [inserted]
    exact declares_insertImport wellScoped module written

theorem isFree_of_freshName {o : RepairOptions} {s : ScopeId} {use : NameUse} {name fresh : String}
    (ok : p.freshName o s use name = .ok fresh) : p.tree.isFree s use o.globals fresh = true := by
  unfold freshName at ok
  split at ok
  · cases ok
    exact isFree_of_freshName? (by assumption)
  · cases ok

/-- The body that declarations go to is that of the first component. -/
theorem componentScope?_of_componentBody {component : NodeId} {body : FunctionBody}
    (ok : p.componentBody = .ok (component, body)) :
    p.tree.componentScope? = some body.scope ∧ p.tree.bodyScope? component = some body.scope := by
  unfold componentBody at ok
  cases first : p.tree.firstComponent? with
  | none =>
      rw [first] at ok
      cases ok
  | some c =>
      rw [first] at ok
      cases result : edited (p.tree.blockBody c) with
      | error e =>
          simp only [result, bind, Except.bind] at ok
          cases ok
      | ok b =>
          simp only [result, bind, Except.bind] at ok
          cases ok
          have inBody := bodyScope?_of_blockBody (eq_ok_of_edited result)
          exact ⟨by rw [componentScope?, first, Option.bind_some, inBody], inBody⟩

/-- A pair that is declared gets two different free names in the body of the first component. -/
theorem declarePair_ok {o : RepairOptions} {value setter : String}
    (ok : p.declarePair o value setter = .ok (written, next)) :
    ∃ component scope id freshValue freshSetter, written = [freshValue, freshSetter] ∧
      freshValue ≠ freshSetter ∧ p.tree.componentScope? = some scope ∧
      p.tree.bodyScope? component = some scope ∧
      (∀ name ∈ written, p.tree.isFree scope .declaration o.globals name = true) ∧
      p.tree.declareState component freshValue freshSetter o.statePrimitive = .ok (id, next.tree) ∧
      next.newImports = p.newImports := by
  unfold declarePair at ok
  dsimp only at ok
  split at ok
  · cases ok
  · obtain ⟨⟨component, body⟩, place, ok⟩ := of_bind_eq_ok ok
    obtain ⟨inComponent, inBody⟩ := componentScope?_of_componentBody place
    dsimp only at ok
    split at ok
    · cases ok
    · obtain ⟨freshValue, valueOk, ok⟩ := of_bind_eq_ok ok
      obtain ⟨freshSetter, setterOk, ok⟩ := of_bind_eq_ok ok
      split at ok
      · cases ok
      · rename_i different
        obtain ⟨⟨id, tree⟩, editedOk, ok⟩ := of_bind_eq_ok ok
        cases ok
        refine ⟨component, body.scope, id, freshValue, freshSetter, rfl, different, inComponent, inBody,
          fun name here => ?_, eq_ok_of_edited editedOk, rfl⟩
        rcases List.mem_cons.mp here with rfl | here
        · exact isFree_of_freshName valueOk
        · rw [List.mem_singleton.mp here]
          exact isFree_of_freshName setterOk

theorem declares_declarePair {o : RepairOptions} {value setter : String}
    (wellScoped : p.tree.IsWellScoped) (ok : p.declarePair o value setter = .ok (written, next)) :
    ∃ scope, p.tree.componentScope? = some scope ∧ Declares p.tree next.tree scope written := by
  obtain ⟨component, scope, id, freshValue, freshSetter, rfl, different, inComponent, inBody, free,
    edited, -⟩ := declarePair_ok ok
  exact ⟨scope, inComponent, declares_declareState wellScoped inBody edited
    (unseen_of_isFree (free freshValue (by simp))) (unseen_of_isFree (free freshSetter (by simp)))
    different⟩

/-- A name that is declared is free in the body of the first component. -/
theorem declareSingle_ok {o : RepairOptions} {name : String}
    (ok : p.declareSingle o name = .ok (written, next)) :
    ∃ component scope id fresh, written = [fresh] ∧ p.tree.componentScope? = some scope ∧
      p.tree.bodyScope? component = some scope ∧
      p.tree.isFree scope .declaration o.globals fresh = true ∧
      p.tree.declareNull component fresh = .ok (id, next.tree) ∧ next.newImports = p.newImports := by
  unfold declareSingle at ok
  obtain ⟨⟨component, body⟩, place, ok⟩ := of_bind_eq_ok ok
  obtain ⟨inComponent, inBody⟩ := componentScope?_of_componentBody place
  dsimp only at ok
  split at ok
  · cases ok
  · obtain ⟨fresh, freshOk, ok⟩ := of_bind_eq_ok ok
    obtain ⟨⟨id, tree⟩, editedOk, ok⟩ := of_bind_eq_ok ok
    cases ok
    exact ⟨component, body.scope, id, fresh, rfl, inComponent, inBody, isFree_of_freshName freshOk,
      eq_ok_of_edited editedOk, rfl⟩

theorem declares_declareSingle {o : RepairOptions} {name : String}
    (wellScoped : p.tree.IsWellScoped) (ok : p.declareSingle o name = .ok (written, next)) :
    ∃ scope, p.tree.componentScope? = some scope ∧ Declares p.tree next.tree scope written := by
  obtain ⟨component, scope, id, fresh, rfl, inComponent, inBody, free, edited, -⟩ := declareSingle_ok ok
  exact ⟨scope, inComponent, declares_declareNull wellScoped inBody edited (unseen_of_isFree free)⟩

/-- Nothing that is used refers to something else, and the scopes are where they were. -/
structure KeepsUses (t u : Tree) : Prop where
  uses : SameUses t u
  wellScoped : u.IsWellScoped
  size_eq : u.size = t.size
  shape : t.scopes.SameShape u.scopes
  resolve? : ∀ r ∈ t.references, u.resolve? r = t.resolve? r

/-- A rename that is carried out gives a free name, which begins with the mark of an unused binding, to a
binding of the old name that begins at the place, that is not exported and that nothing refers to. -/
theorem rename_ok {o : RepairOptions} {position : Position} {name : String}
    (ok : p.rename o position name = .ok (written, next)) :
    ∃ offset id fresh, p.tree.offset? position = some offset ∧ id ∈ p.tree.bindingsAt offset ∧
      p.tree.name? id = some name ∧
      (∃ site, (p.tree.identifier? id).bind (·.site?) = some site ∧ site.exported = false) ∧
      p.tree.isReferenced id = false ∧ written = [fresh] ∧
      p.tree.freshName? (p.tree.scopeOf id) .rename o.globals o.maxSuffixAttempts
        (o.reservedPrefix ++ name) = some fresh ∧
      p.tree.rename id fresh = .ok next.tree ∧ next.newImports = p.newImports := by
  unfold rename at ok
  cases place : p.tree.offset? position with
  | none =>
      rw [place] at ok
      cases ok
  | some offset =>
      rw [place] at ok
      dsimp only at ok
      split at ok
      · rename_i id found
        split at ok
        · rename_i site isBinding
          split at ok
          · cases ok
          · rename_i unexported
            split at ok
            · cases ok
            · rename_i unreferenced
              obtain ⟨fresh, freshOk, ok⟩ := of_bind_eq_ok ok
              obtain ⟨tree, editedOk, ok⟩ := of_bind_eq_ok ok
              cases ok
              refine ⟨offset, id, fresh, rfl, List.mem_of_find?_eq_some found,
                by simpa using List.find?_some found, ⟨site, isBinding, by simpa using unexported⟩,
                by simpa using unreferenced, rfl, ?_,
                eq_ok_of_edited editedOk, rfl⟩
              unfold freshName at freshOk
              split at freshOk
              · cases freshOk
                assumption
              · cases freshOk
        · cases ok
      · cases ok

theorem keepsUses_rename {o : RepairOptions} {position : Position} {name : String}
    (wellScoped : p.tree.IsWellScoped) (ok : p.rename o position name = .ok (written, next)) :
    KeepsUses p.tree next.tree := by
  obtain ⟨offset, id, fresh, -, -, -, -, unreferenced, -, freshOk, edited, -⟩ := rename_ok ok
  obtain ⟨old, named, renames⟩ := renames_rename wellScoped edited
  refine ⟨renames.uses, renames.wellScoped, renames.size_eq, ?_, fun r here => ?_⟩
  · rw [renames.scopes]
    exact (ScopeForest.sameShape_undeclare ..).trans (ScopeForest.sameShape_declare ..)
  · exact renames.resolve?_reference wellScoped named unreferenced (isFree_of_freshName? freshOk) here

end Progress

end BindingRepair
