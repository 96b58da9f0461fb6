/-
# Entries in the tables of the scopes

What an edit does to the tables: added names are entered each for a new node, and a renamed binding goes
from one name to another. So a name that one identifier binds keeps that one binding through edits that
take other names.
-/

import BindingRepair.Proofs.Frame
import BindingRepair.Proofs.NameIndex
import BindingRepair.Script.Walk

namespace BindingRepair.Script.Tree

open Text

variable {t u v : Tree}

/-! ### Bindings at a place -/

/-- What entering and leaving nodes keep is kept by a walk. -/
theorem walkSteps_induction {σ : Type} {visitor : Visitor σ} {motive : σ → Prop}
    (enter : ∀ id n s, t.node? id = some n → motive s → motive (visitor.enter id n s).2)
    (leave : ∀ id n s, t.node? id = some n → motive s → motive (visitor.leave id n s))
    (bound : Nat) (steps : List WalkStep) (s : σ) (start : motive s) :
    motive (t.walkSteps visitor bound steps s) := by
  induction bound generalizing steps s with
  | zero => exact start
  | succ bound ih =>
      cases steps with
      | nil => exact start
      | cons step steps =>
          cases step with
          | enter id =>
              rw [walkSteps]
              cases found : t.node? id with
              | none => exact ih steps s start
              | some n =>
                  have entered := enter id n s found start
                  dsimp only
                  split
                  · rename_i visit
                    rwa [visit] at entered
                  · rename_i visit
                    rw [visit] at entered
                    exact ih steps _ (leave id n _ found entered)
                  · rename_i visit
                    rw [visit] at entered
                    exact ih _ _ entered
          | leave id =>
              rw [walkSteps]
              cases found : t.node? id with
              | none => exact ih steps s start
              | some n => exact ih steps _ (leave id n s found start)

/-- What is found at a place is a binding in the text that begins there. -/
theorem of_mem_bindingsAt {offset : Nat} {id : NodeId} (here : id ∈ t.bindingsAt offset) :
    ∃ i, t.identifier? id = some i ∧ i.site?.isSome = true ∧ (t.spanOf id).start = offset ∧
      (t.spanOf id).isEmpty = false := by
  refine walkSteps_induction
    (motive := fun found => ∀ id ∈ found, ∃ i, t.identifier? id = some i ∧ i.site?.isSome = true ∧
      (t.spanOf id).start = offset ∧ (t.spanOf id).isEmpty = false)
    (fun id n s found known other listed => ?_) (fun _ _ _ _ known => known) _ _ _
    (fun _ none => absurd none List.not_mem_nil) id here
  have span : t.spanOf id = n.span := by rw [spanOf, found]; rfl
  unfold bindingCollector at listed
  dsimp only at listed
  split at listed
  · exact known other listed
  · split at listed
    · rename_i i kind
      split at listed
      · rename_i begins
        rcases List.mem_append.mp listed with old | new
        · exact known other old
        · rw [List.mem_singleton.mp new, span]
          simp only [Bool.and_eq_true, beq_iff_eq, Bool.not_eq_true'] at begins
          exact ⟨i, identifier?_eq_some_iff.mpr ⟨n, found, kind⟩, begins.2, begins.1.1, begins.1.2⟩
      · exact known other listed
    · exact known other listed

/-! ### Entries in the tables -/

/-- The nodes that a scope lists under a name. -/
def listed (t : Tree) (s : ScopeId) (name : String) : List NodeId :=
  (t.scopes.bindingsOf s).nodesOf name

theorem IsIndexed.mem_listed (indexed : t.IsIndexed) {s : ScopeId} {name : String} {id : NodeId} :
    id ∈ t.listed s name ↔ Binds t.nodes id s name :=
  indexed.mem_iff s name id

theorem IsIndexed.listed_eq_nil_of_not_binds (indexed : t.IsIndexed) {s : ScopeId} {name : String}
    (unbound : t.scopes.binds s name = false) : t.listed s name = [] := by
  by_contra some
  rw [ScopeForest.binds, ((indexed.tidy s).binds_iff name).mpr some] at unbound
  cases unbound

/-- A name that cannot be seen from a scope is listed nowhere around it. -/
theorem IsIndexed.listed_eq_nil (indexed : t.IsIndexed) {s r : ScopeId} {name : String}
    (unseen : t.scopes.resolve? s name = none) (around : r ∈ t.scopes.chain s) :
    t.listed r name = [] :=
  indexed.listed_eq_nil_of_not_binds (ScopeForest.resolve?_eq_none_iff.mp unseen r around)

/-- Names are entered in a scope, each for a new node; all else is listed as before. -/
structure Enters (t u : Tree) (scope : ScopeId) (names : List String) : Prop where
  listed : ∀ name ∈ names, ∃ id, t.size ≤ id.index ∧
    u.listed scope name = t.listed scope name ++ [id]
  others : ∀ s name, ¬(s = scope ∧ name ∈ names) → u.listed s name = t.listed s name

namespace Enters

variable {scope : ScopeId} {names names' : List String}

theorem of_scopes (same : u.scopes = t.scopes) (scope : ScopeId) : Enters t u scope [] where
  listed := nofun
  others s name _ := by rw [Tree.listed, same, Tree.listed]

theorem trans (first : Enters t u scope names) (second : Enters u v scope names')
    (size_le : t.size ≤ u.size) (apart : List.Disjoint names names') :
    Enters t v scope (names ++ names') where
  listed name here := by
    rcases List.mem_append.mp here with early | late
    · rw [second.others scope name fun all => apart early all.2]
      exact first.listed name early
    · obtain ⟨id, new, entered⟩ := second.listed name late
      rw [first.others scope name fun all => apart all.2 late] at entered
      exact ⟨id, size_le.trans new, entered⟩
  others s name elsewhere := by
    rw [second.others s name fun all => elsewhere ⟨all.1, List.mem_append_right _ all.2⟩,
      first.others s name fun all => elsewhere ⟨all.1, List.mem_append_left _ all.2⟩]

/-- What is entered is told by the scopes. -/
theorem congr (enters : Enters t u scope names) (same : v.scopes = u.scopes) : Enters t v scope names where
  listed name here := by
    rw [Tree.listed, same]
    exact enters.listed name here
  others s name elsewhere := by
    rw [Tree.listed, same]
    exact enters.others s name elsewhere

end Enters

theorem IsIndexed.enters (indexed : t.IsIndexed) {scope : ScopeId} {name : String}
    (bounded : scope.index < t.scopes.size)
    (declared : u.scopes = t.scopes.declare scope name ⟨t.size⟩) : Enters t u scope [name] := by
  have listed (s : ScopeId) (other : String) : u.listed s other =
      if s = scope ∧ other = name then t.listed scope name ++ [⟨t.size⟩] else t.listed s other := by
    rw [Tree.listed, declared]
    exact ScopeForest.nodesOf_declare bounded (indexed.tidy scope) s other
  refine ⟨fun other here => ⟨⟨t.size⟩, Nat.le_refl _, ?_⟩, fun s other elsewhere => ?_⟩
  · rw [List.mem_singleton.mp here, listed, if_pos ⟨rfl, rfl⟩]
  · rw [listed, if_neg fun all => elsewhere ⟨all.1, List.mem_singleton.mpr all.2⟩]

theorem enters_addNode (t : Tree) (kind : NodeKind) (parent : NodeId) (scope : ScopeId) (offset : Nat)
    (s : ScopeId) : Enters t (t.addNode kind parent scope offset).2 s [] :=
  .of_scopes (t := t) (u := (t.addNode kind parent scope offset).2) rfl s

theorem enters_foldl_addImportedName (indexed : t.IsIndexed) (nonempty : 0 < t.scopes.size)
    (importId : NodeId) {names : List String} (nodup : names.Nodup) :
    Enters t (names.foldl (·.addImportedName importId) t) moduleScope names := by
  induction names generalizing t with
  | nil => exact .of_scopes rfl moduleScope
  | cons name names ih =>
      obtain ⟨first, nodup⟩ := List.nodup_cons.mp nodup
      have entered : Enters t (t.addImportedName importId name) moduleScope [name] :=
        indexed.enters nonempty (scopes_addImportedName t importId name)
      refine entered.trans (ih (indexed.addImportedName importId name nonempty) ?_ nodup)
        (t.grows_addImportedName importId name).size_le (List.singleton_disjoint.mpr first)
      rwa [scopes_addImportedName, (ScopeForest.sameShape_declare ..).size_eq]

theorem enters_addImportNames (indexed : t.IsIndexed) (nonempty : 0 < t.scopes.size) {importId : NodeId}
    {names : List String} (nodup : names.Nodup) (edited : t.addImportNames importId names = .ok u) :
    Enters t u moduleScope names := by
  obtain ⟨-, -, -, rfl⟩ := addImportNames_eq edited
  exact enters_foldl_addImportedName indexed nonempty importId nodup

theorem enters_insertImport (indexed : t.IsIndexed) (nonempty : 0 < t.scopes.size) (module : String)
    {names : List String} (nodup : names.Nodup) :
    Enters t (t.insertImport module names).2 moduleScope names := by
  have added := indexed.addNode (.importDeclaration { source := module }) root moduleScope
    t.importPlace.1 rfl
  have named := enters_foldl_addImportedName added nonempty ⟨t.size⟩ nodup
  have both := (t.enters_addNode _ root moduleScope _ moduleScope).trans named (by simp)
    (List.disjoint_nil_left names)
  exact both.congr rfl

theorem enters_declareState (wellScoped : t.IsWellScoped) (indexed : t.IsIndexed)
    {function id : NodeId} {value setter callee : String} {scope : ScopeId}
    (inBody : t.bodyScope? function = some scope) (different : value ≠ setter)
    (edited : t.declareState function value setter callee = .ok (id, u)) :
    Enters t u scope [value, setter] := by
  obtain ⟨body, found, rfl, rfl⟩ := declareState_eq edited
  obtain rfl : body.scope = scope :=
    Option.some.inj ((bodyScope?_of_blockBody found).symm.trans inBody)
  have bounded := wellScoped.bodyScope_lt inBody
  have indexed₁ := indexed.addNode .statement function body.scope (body.opening + 1) rfl
  have indexed₂ := indexed₁.addBinding ⟨t.size⟩ value .const bounded
  have bounded₂ := bounded.trans_eq (ScopeForest.sameShape_declare t.scopes body.scope value
    ⟨(t.addNode .statement function body.scope (body.opening + 1)).2.size⟩).size_eq.symm
  have first := indexed₁.enters bounded (scopes_addBinding _ ⟨t.size⟩ body.scope value .const)
  have second := IsIndexed.enters indexed₂ bounded₂ (scopes_addBinding _ ⟨t.size⟩ body.scope setter .const)
  have both := first.trans second (by simp) (List.disjoint_singleton.mpr (by simpa using different.symm))
  have all := (t.enters_addNode .statement function body.scope (body.opening + 1) body.scope).trans both
    (by simp) (List.disjoint_nil_left _)
  exact all.congr (scopes_synthesize ..)

theorem enters_declareNull (wellScoped : t.IsWellScoped) (indexed : t.IsIndexed)
    {function id : NodeId} {name : String} {scope : ScopeId}
    (inBody : t.bodyScope? function = some scope)
    (edited : t.declareNull function name = .ok (id, u)) : Enters t u scope [name] := by
  obtain ⟨body, found, rfl, rfl⟩ := declareNull_eq edited
  obtain rfl : body.scope = scope :=
    Option.some.inj ((bodyScope?_of_blockBody found).symm.trans inBody)
  have indexed₁ := indexed.addNode .statement function body.scope (body.opening + 1) rfl
  have first := indexed₁.enters (wellScoped.bodyScope_lt inBody)
    (scopes_addBinding _ ⟨t.size⟩ body.scope name .let)
  have all := (t.enters_addNode .statement function body.scope (body.opening + 1) body.scope).trans first
    (by simp) (List.disjoint_nil_left _)
  exact all.congr (scopes_synthesize ..)

/-- Growth changes no binding. -/
theorem Grows.binds_iff (grows : Grows t u) {id : NodeId} (bounded : id.index < t.size) (s : ScopeId)
    (name : String) : Binds u.nodes id s name ↔ Binds t.nodes id s name := by
  have found : t.node? id = some t.nodes[id.index] := Array.getElem?_eq_getElem bounded
  obtain ⟨m, found', nodeGrows⟩ := grows.node id _ found
  have same : m.bindsIn s name = t.nodes[id.index].bindsIn s name := by
    rcases nodeGrows.kind with kind | ⟨inert, inert'⟩
    · exact Node.bindsIn_congr kind nodeGrows.scope s name
    · have plain {kind : NodeKind} (inert : kind.isInert = true) : kind.isIdentifier = false := by
        simpa using (Bool.and_eq_true_iff.mp inert).2
      rw [Node.bindsIn_of_not_identifier (plain inert), Node.bindsIn_of_not_identifier (plain inert')]
  simp only [Binds, show t.nodes[id.index]? = some _ from found, show u.nodes[id.index]? = some m from found',
    Option.some.injEq, exists_eq_left', same]

/-! ### Renamed bindings -/

section Rename

variable {id : NodeId} {i : IdentifierNode} {new : String}

/-- A rename takes the binding from one name of its scope to another. -/
theorem listed_rename (wellScoped : t.IsWellScoped) (indexed : t.IsIndexed)
    (identifier : t.identifier? id = some i) (edited : t.rename id new = .ok u) (s : ScopeId)
    (name : String) : u.listed s name =
      if s = t.scopeOf id ∧ name = new then
        (if new = i.name then (t.listed s new).filter (· ≠ id) else t.listed s new) ++ [id]
      else if s = t.scopeOf id ∧ name = i.name then (t.listed s name).filter (· ≠ id)
      else t.listed s name := by
  obtain ⟨j, again, -, rfl⟩ := rename_eq edited
  obtain rfl : i = j := Option.some.inj (identifier.symm.trans again)
  have left := indexed.undeclare (t.scopeOf id) i.name id
  have bounded : (t.scopeOf id).index < (t.scopes.undeclare (t.scopeOf id) i.name id).size :=
    (wellScoped.scopeOf_lt id).trans_eq (ScopeForest.sameShape_undeclare ..).size_eq.symm
  have forgotten (s : ScopeId) (name : String) :
      ((t.scopes.undeclare (t.scopeOf id) i.name id).bindingsOf s).nodesOf name = _ :=
    ScopeForest.nodesOf_undeclare (indexed.tidy (t.scopeOf id)) s name
  refine (ScopeForest.nodesOf_declare bounded (left.tidy _) s name).trans ?_
  rw [forgotten, forgotten]
  by_cases here : s = t.scopeOf id
  · subst here
    simp only [true_and, Tree.listed]
    split
    · split
      · rename_i same
        rw [same]
      · rfl
    · split
      · rename_i same
        rw [same]
      · rfl
  · simp only [here, false_and, if_false, Tree.listed]

theorem binds_rename (edited : t.rename id new = .ok u) {other : NodeId} {s : ScopeId} {name : String}
    (binds : Binds u.nodes other s name) : other = id ∧ name = new ∨ Binds t.nodes other s name := by
  obtain ⟨i, -, -, rfl⟩ := rename_eq edited
  have changed := (binds_modify t.nodes id (fun n => { n with kind := .identifier (i.renamed new) })
    other s name).mp binds
  split at changed
  · rename_i same
    obtain ⟨n, -, bindsIn⟩ := changed
    obtain ⟨j, kind, -, -, rfl⟩ := Node.of_bindsIn bindsIn
    cases kind
    exact .inl ⟨same, rfl⟩
  · exact .inr changed

end Rename

/-- In a scope one identifier binds a name, and in no other scope of a region any. No rename of a
binding of the text without the mark can touch the identifier. -/
structure Sole (u : Tree) (mark : String) (near : ScopeId → Prop) (s : ScopeId) (name : String)
    (id : NodeId) : Prop where
  once : u.listed s name = [id]
  absent : ∀ r, near r → r ≠ s → u.listed r name = []
  settled : (u.spanOf id).isEmpty = true ∨ mark.toList <+: name.toList

namespace Sole

variable {mark : String} {near : ScopeId → Prop} {s : ScopeId} {name : String} {id : NodeId}

theorem binds (sole : Sole u mark near s name id) (indexed : u.IsIndexed) : Binds u.nodes id s name :=
  indexed.mem_listed.mp (sole.once ▸ List.mem_singleton_self id)

/-- Other names may be entered anywhere, and the same name out of the region. -/
theorem enters (sole : Sole u mark near s name id) (indexed : u.IsIndexed) {scope : ScopeId}
    {names : List String} (enters : Enters u v scope names) (places : u.KeepsPlaces v)
    (clear : near scope ∨ scope = s → name ∉ names) : Sole v mark near s name id where
  once := by
    rw [enters.others s name fun all => clear (.inr all.1.symm) all.2, sole.once]
  absent r close different := by
    rw [enters.others r name fun all => clear (.inl (all.1 ▸ close)) all.2, sole.absent r close different]
  settled := by
    rw [places.spanOf id (sole.binds indexed).lt_size]
    exact sole.settled

/-- A binding of the text without the mark may be renamed, but not to the same name in the region. -/
theorem rename (sole : Sole u mark near s name id) (wellScoped : u.IsWellScoped) (indexed : u.IsIndexed)
    {other : NodeId} {i : IdentifierNode} {new : String} (identifier : u.identifier? other = some i)
    (edited : u.rename other new = .ok v) (apart : other ≠ id)
    (clear : near (u.scopeOf other) ∨ u.scopeOf other = s → name ≠ new) : Sole v mark near s name id where
  once := by
    rw [listed_rename wellScoped indexed identifier edited,
      if_neg fun all => clear (.inr all.1.symm) all.2, sole.once]
    split
    · simp [Ne.symm apart]
    · rfl
  absent r close different := by
    have elsewhere : ¬(r = u.scopeOf other ∧ name = new) := fun all => clear (.inl (all.1 ▸ close)) all.2
    rw [listed_rename wellScoped indexed identifier edited, if_neg elsewhere,
      sole.absent r close different]
    split
    · rfl
    · rfl
  settled := by
    have places := u.keepsPlaces_edit (.rename other new)
    rw [edit, edited] at places
    have kept := places.spanOf id (sole.binds indexed).lt_size
    dsimp only [orKept] at kept
    rw [kept]
    exact sole.settled

end Sole

/-- A name that is entered where it was listed neither in the scope nor near it has one binding. -/
theorem Enters.sole {scope : ScopeId} {names : List String} (enters : Enters t u scope names)
    (places : t.KeepsPlaces u) (near : ScopeId → Prop) {name : String} (here : name ∈ names)
    (unlisted : t.listed scope name = []) (absent : ∀ r, near r → t.listed r name = []) (mark : String) :
    ∃ id, Sole u mark near scope name id := by
  obtain ⟨id, new, entered⟩ := enters.listed name here
  refine ⟨id, by rw [entered, unlisted, List.nil_append], fun r close different => ?_,
    .inl (places.isEmpty id new)⟩
  rw [enters.others r name fun all => different all.1]
  exact absent r close

end BindingRepair.Script.Tree
