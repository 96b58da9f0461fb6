/-
# Nesting of scopes, from above and from below

A scope names the scope around it and lists the scopes in it. The parser keeps the two in step, and edits
leave both alone. So what a search down the lists finds is bound in some scope from which the links lead up to
where the search began. No scope is looked at twice, on the way down or on the way up.
-/

import BindingRepair.Proofs.Grammar.Parsed
import BindingRepair.Proofs.History
import BindingRepair.Proofs.ScopeGrowth
import Mathlib.Data.Finset.Card
import Mathlib.Order.Preorder.Chain

namespace BindingRepair.Script

namespace ScopeForest

variable {f g : ScopeForest}

/-! ### Lists and links -/

/-- A scope lists only scopes that name it as the one around them, and none of them twice. -/
structure Mirrored (f : ScopeForest) : Prop where
  parent?_eq : ∀ s p : ScopeId, s ∈ f.childrenOf p → f.parent? s = some p
  nodup : ∀ p : ScopeId, (f.childrenOf p).Nodup

theorem Mirrored.of_sameShape (mirrored : f.Mirrored) (same : SameShape f g) : g.Mirrored where
  parent?_eq s p listed := by
    rw [same.parent?_eq]
    exact mirrored.parent?_eq s p (same.childrenOf_eq p ▸ listed)
  nodup p := by
    rw [same.childrenOf_eq]
    exact mirrored.nodup p

theorem mirrored_single (kind : ScopeKind) : (empty.add kind none).2.Mirrored := by
  have none (p : ScopeId) : (empty.add kind none).2.childrenOf p = [] := by
    unfold childrenOf get? add empty
    rcases p with ⟨_ | i⟩
    · rfl
    · rfl
  constructor
  · intro s p listed
    rw [none] at listed
    cases listed
  · intro p
    rw [none]
    exact List.nodup_nil

theorem lt_size_of_parent? {s p : ScopeId} (parent : f.parent? s = some p) : s.index < f.size := by
  by_contra outside
  have missing : f.get? s = none := Array.getElem?_eq_none (Nat.le_of_not_lt outside)
  simp [parent?, missing] at parent

/-- A new scope is listed where it says that it lies. -/
theorem Mirrored.add (mirrored : f.Mirrored) (kind : ScopeKind) {p : ScopeId} (inside : p.index < f.size) :
    (f.add kind (some p)).2.Mirrored := by
  have childrenOf_add (q : ScopeId) : (f.add kind (some p)).2.childrenOf q =
      f.childrenOf q ++ if q = p then [⟨f.size⟩] else [] := by
    unfold childrenOf
    rw [get?_add f kind inside]
    by_cases last : q.index = f.size
    · have missing : f.get? q = none := Array.getElem?_eq_none (Nat.le_of_eq last.symm)
      have other : q ≠ p := fun same => Nat.ne_of_lt (same ▸ inside) last
      simp [last, missing, other]
    · rw [if_neg last]
      split
      · rename_i here
        have found : f.get? q = some f.scopes[p.index] := here ▸ Array.getElem?_eq_getElem inside
        simp [found]
      · simp
  have old {s q : ScopeId} (listed : s ∈ f.childrenOf q) : s.index < f.size :=
    lt_size_of_parent? (mirrored.parent?_eq s q listed)
  constructor
  · intro s q listed
    rw [childrenOf_add] at listed
    rcases List.mem_append.mp listed with before | new
    · rw [(extends_add kind inside).parent?_eq s (old before)]
      exact mirrored.parent?_eq s q before
    · split at new
      · rename_i here
        rw [List.mem_singleton.mp new, here, parent?, get?_add f kind inside, if_pos rfl]
        rfl
      · cases new
  · intro q
    rw [childrenOf_add]
    refine (mirrored.nodup q).append ?_ fun s before new => ?_
    · split
      · exact List.nodup_singleton _
      · exact List.nodup_nil
    · split at new
      · have fresh := old before
        rw [List.mem_singleton.mp new] at fresh
        exact Nat.lt_irrefl _ fresh
      · cases new

/-! ### Searches that keep a stack -/

/-- Looks for a name in the scopes that wait on a stack and in the scopes in them, the last listed first. There is
no answer if more than `n` scopes have to be looked at. -/
def searchDown (f : ScopeForest) (name : String) : (n : Nat) → List ScopeId → Option Bool
  | _, [] => some false
  | 0, _ :: _ => none
  | n + 1, s :: waiting =>
    if f.binds s name then some true
    else f.searchDown name n ((f.childrenOf s).reverse ++ waiting)

/-- Looks for a scope among a scope and those around it, from the inside out. There is no answer if more than `n`
scopes have to be looked at. -/
def searchUp (f : ScopeForest) (outer : ScopeId) : (n : Nat) → ScopeId → Option Bool
  | 0, _ => none
  | n + 1, s =>
    if s = outer then some true
    else
      match f.parent? s with
      | none => some false
      | some p => f.searchUp outer n p

/-- Neither scope lies in the other. -/
def AreApart (f : ScopeForest) (s t : ScopeId) : Prop :=
  f.isWithin s t = false ∧ f.isWithin t s = false

/-- The numbers of the scopes that lie in one of a list. -/
def within (f : ScopeForest) (waiting : List ScopeId) : Finset Nat :=
  (Finset.range f.size).filter fun i => ∃ s ∈ waiting, f.isWithin ⟨i⟩ s = true

theorem mem_within {waiting : List ScopeId} {i : Nat} :
    i ∈ f.within waiting ↔ i < f.size ∧ ∃ s ∈ waiting, f.isWithin ⟨i⟩ s = true := by
  rw [within, Finset.mem_filter, Finset.mem_range]

theorem card_within_le (waiting : List ScopeId) : (f.within waiting).card ≤ f.size :=
  (Finset.card_filter_le _ _).trans_eq (Finset.card_range _)

theorem self_mem_within {s : ScopeId} (waiting : List ScopeId) (known : s.index < f.size) :
    s.index ∈ f.within (s :: waiting) :=
  mem_within.mpr ⟨known, s, List.mem_cons_self, f.isWithin_self s⟩

section Nesting

variable (wellFormed : f.WellFormed)
include wellFormed

/-! ### The order of nesting -/

/-- A scope lies in another exactly if it is the same or the scope around it does. -/
theorem isWithin_iff {s t : ScopeId} :
    f.isWithin s t = true ↔ s = t ∨ ∃ p, f.parent? s = some p ∧ f.isWithin p t = true := by
  unfold isWithin
  simp only [List.contains_iff_mem]
  cases parent : f.parent? s with
  | none => simp [chain_of_parent_none parent, eq_comm]
  | some p => simp [chain_of_parent wellFormed parent, eq_comm]

theorem isPartialOrder_isWithin : IsPartialOrder ScopeId fun s t => f.isWithin s t = true where
  refl := f.isWithin_self
  trans _ _ _ := isWithin_trans wellFormed
  antisymm s t there back := by
    unfold isWithin at there back
    rw [List.contains_iff_mem] at there back
    exact congrArg ScopeId.mk (Nat.le_antisymm (index_le_of_mem_chain f back) (index_le_of_mem_chain f there))

/-- Of two scopes around a third one lies in the other. -/
theorem isChain_isWithin (s : ScopeId) :
    IsChain (fun a b => f.isWithin a b = true) {a | f.isWithin s a = true} := by
  intro a first b second _
  rw [Set.mem_ofPred_eq, isWithin, List.contains_iff_mem] at first second
  simp only [isWithin, List.contains_iff_mem]
  -- The chains of both are ends of the chain of the third, so one is an end of the other.
  rcases List.suffix_or_suffix_of_suffix (chain_suffix wellFormed first) (chain_suffix wellFormed second) with
    shorter | longer
  · exact .inr (shorter.subset (mem_chain_self f a))
  · exact .inl (longer.subset (mem_chain_self f b))

/-! ### Down the lists -/

section Down

variable (mirrored : f.Mirrored)
include mirrored

theorem lt_of_mem_childrenOf {s c : ScopeId} (child : c ∈ f.childrenOf s) :
    s.index < c.index ∧ c.index < f.size :=
  have parent := mirrored.parent?_eq c s child
  ⟨wellFormed.parent?_lt c s parent, lt_size_of_parent? parent⟩

theorem isWithin_of_mem_childrenOf {s c : ScopeId} (child : c ∈ f.childrenOf s) : f.isWithin c s = true :=
  (isWithin_iff wellFormed).mpr (.inr ⟨s, mirrored.parent?_eq c s child, f.isWithin_self s⟩)

theorem bindsBelow_eq (s : ScopeId) (name : String) :
    f.bindsBelow s name = (f.binds s name || (f.childrenOf s).any (f.bindsBelow · name)) := by
  rw [bindsBelow, Bool.eq_iff_iff, Bool.or_eq_true, Bool.or_eq_true, List.any_eq_true, List.any_eq_true]
  refine or_congr_right (exists_congr fun c => and_congr_right fun child => ?_)
  rw [if_pos (lt_of_mem_childrenOf wellFormed mirrored child)]

/-- A name is bound below a scope exactly if it is bound in a scope that lies in it. -/
theorem bindsBelow_iff (s : ScopeId) (name : String) :
    f.bindsBelow s name = true ↔ ∃ t, f.isWithin t s = true ∧ f.binds t name = true := by
  constructor
  · intro below
    induction s using bindsBelow.induct f with
    | case1 s ih =>
        rw [bindsBelow_eq wellFormed mirrored, Bool.or_eq_true, List.any_eq_true] at below
        rcases below with here | ⟨c, child, deeper⟩
        · exact ⟨s, f.isWithin_self s, here⟩
        · obtain ⟨t, inside, bound⟩ := ih c (lt_of_mem_childrenOf wellFormed mirrored child) deeper
          have link := isWithin_of_mem_childrenOf wellFormed mirrored child
          exact ⟨t, isWithin_trans wellFormed inside link, bound⟩
  · rintro ⟨t, inside, bound⟩
    refine bindsBelow_of_binds wellFormed (List.contains_iff_mem.mp inside) ?_
    rw [bindsBelow, bound, Bool.true_or]

/-! ### What a search has still to look at -/

section Waiting

variable {s : ScopeId} {waiting : List ScopeId}

/-- A scope does not lie in those that it lists. -/
theorem not_isWithin_of_mem_childrenOf {c : ScopeId} (child : c ∈ f.childrenOf s) : f.isWithin s c = false := by
  rw [Bool.eq_false_iff]
  intro inside
  have later := (lt_of_mem_childrenOf wellFormed mirrored child).1
  exact Nat.not_lt.mpr (index_le_of_mem_chain f (List.contains_iff_mem.mp inside)) later

/-- What a listed scope lies in, itself apart, the scope that lists it lies in as well. -/
theorem isWithin_parent {c t : ScopeId} (child : c ∈ f.childrenOf s) (inside : f.isWithin c t = true)
    (other : c ≠ t) : f.isWithin s t = true := by
  obtain ⟨p, parent, further⟩ := ((isWithin_iff wellFormed).mp inside).resolve_left other
  rw [mirrored.parent?_eq c s child, Option.some.injEq] at parent
  exact parent ▸ further

/-- The scopes on the stack stay apart when one of them gives way to those that it lists. -/
theorem pairwise_areApart_step (apart : (s :: waiting).Pairwise f.AreApart) :
    ((f.childrenOf s).reverse ++ waiting).Pairwise f.AreApart := by
  obtain ⟨first, others⟩ := List.pairwise_cons.mp apart
  have siblings {c c' : ScopeId} (child : c ∈ f.childrenOf s) (child' : c' ∈ f.childrenOf s) (different : c ≠ c') :
      f.isWithin c c' = false := by
    rw [Bool.eq_false_iff]
    intro inside
    have around := isWithin_parent wellFormed mirrored child inside different
    rw [not_isWithin_of_mem_childrenOf wellFormed mirrored child'] at around
    cases around
  refine List.pairwise_append.mpr ⟨List.pairwise_reverse.mpr ?_, others, fun c child t listed => ?_⟩
  · refine (mirrored.nodup s).imp_of_mem fun child child' different => ?_
    exact ⟨siblings child' child (Ne.symm different), siblings child child' different⟩
  · replace child := List.mem_reverse.mp child
    obtain ⟨above, below⟩ := first t listed
    constructor
    · rw [Bool.eq_false_iff]
      intro inside
      by_cases same : c = t
      · rw [← same, isWithin_of_mem_childrenOf wellFormed mirrored child] at below
        cases below
      · rw [isWithin_parent wellFormed mirrored child inside same] at above
        cases above
    · rw [Bool.eq_false_iff]
      intro inside
      have deeper := isWithin_trans wellFormed inside (isWithin_of_mem_childrenOf wellFormed mirrored child)
      rw [below] at deeper
      cases deeper

/-- Then the scope itself need not be looked at again, nor anything new. -/
theorem card_within_step (known : s.index < f.size) (apart : (s :: waiting).Pairwise f.AreApart) :
    (f.within ((f.childrenOf s).reverse ++ waiting)).card < (f.within (s :: waiting)).card := by
  have deeper {c : ScopeId} (child : c ∈ (f.childrenOf s).reverse) : c ∈ f.childrenOf s := List.mem_reverse.mp child
  have subset : f.within ((f.childrenOf s).reverse ++ waiting) ⊆ f.within (s :: waiting) := by
    intro i here
    obtain ⟨bounded, t, listed, inside⟩ := mem_within.mp here
    rcases List.mem_append.mp listed with child | other
    · have around := isWithin_of_mem_childrenOf wellFormed mirrored (deeper child)
      exact mem_within.mpr ⟨bounded, s, List.mem_cons_self, isWithin_trans wellFormed inside around⟩
    · exact mem_within.mpr ⟨bounded, t, List.mem_cons_of_mem s other, inside⟩
  have gone : s.index ∉ f.within ((f.childrenOf s).reverse ++ waiting) := by
    intro again
    obtain ⟨-, t, listed, inside⟩ := mem_within.mp again
    rcases List.mem_append.mp listed with child | other
    · rw [not_isWithin_of_mem_childrenOf wellFormed mirrored (deeper child)] at inside
      cases inside
    · rw [((List.pairwise_cons.mp apart).1 t other).1] at inside
      cases inside
  exact Finset.card_lt_card ((Finset.ssubset_iff_of_subset subset).mpr ⟨s.index, self_mem_within waiting known, gone⟩)

end Waiting

/-- The search down the lists looks at each scope in question once at most, and answers as the recursion does. -/
theorem searchDown_eq (name : String) (n : Nat) {waiting : List ScopeId} (known : ∀ s ∈ waiting, s.index < f.size)
    (apart : waiting.Pairwise f.AreApart) (enough : (f.within waiting).card ≤ n) :
    f.searchDown name n waiting = some (waiting.any (f.bindsBelow · name)) := by
  induction n generalizing waiting with
  | zero =>
      cases waiting with
      | nil => rfl
      | cons s waiting =>
          have here := self_mem_within waiting (known s List.mem_cons_self)
          exact absurd (Finset.card_pos.mpr ⟨_, here⟩) (Nat.not_lt.mpr enough)
  | succ n ih =>
      cases waiting with
      | nil => rfl
      | cons s waiting =>
          rw [searchDown, List.any_cons, bindsBelow_eq wellFormed mirrored]
          cases f.binds s name with
          | true => rfl
          | false =>
              have fewer := card_within_step wellFormed mirrored (known s List.mem_cons_self) apart
              have known' : ∀ t ∈ (f.childrenOf s).reverse ++ waiting, t.index < f.size := by
                intro t listed
                rcases List.mem_append.mp listed with child | other
                · exact (lt_of_mem_childrenOf wellFormed mirrored (List.mem_reverse.mp child)).2
                · exact known t (List.mem_cons_of_mem s other)
              have rest := ih known' (pairwise_areApart_step wellFormed mirrored apart)
                (Nat.le_of_lt_succ (fewer.trans_le enough))
              rw [if_neg Bool.false_ne_true, rest, List.any_append, List.any_reverse, Bool.false_or]

end Down

/-- The search up the links gets to the outermost scope or stops before. -/
theorem searchUp_eq (outer : ScopeId) (n : Nat) {s : ScopeId} (enough : s.index < n) :
    f.searchUp outer n s = some (f.isWithin s outer) := by
  induction n generalizing s with
  | zero => exact absurd enough (Nat.not_lt_zero _)
  | succ n ih =>
      rw [searchUp]
      split
      · rename_i here
        rw [here, f.isWithin_self]
      · rename_i other
        have further := isWithin_iff wellFormed (s := s) (t := outer)
        cases parent : f.parent? s with
        | none =>
            have outside : f.isWithin s outer = false := by
              rw [Bool.eq_false_iff, ne_eq, further, parent]
              simp [other]
            rw [outside]
        | some p =>
            have smaller := wellFormed.parent?_lt s p parent
            dsimp only
            rw [ih (by omega), Option.some.injEq, Bool.eq_iff_iff, further, parent]
            simp [other]

end Nesting

end ScopeForest

/-! ### The scopes of a tree -/

namespace Grammar

variable {origin : Text.Cursor} {s t : State}

theorem Step.mirrored (step : Step origin s t) (known : s.KnowsScope s.scope) (mirrored : s.scopes.Mirrored) :
    t.scopes.Mirrored := by
  cases step with
  | read same => rwa [same.scopes]
  | enterScope kind => exact mirrored.add kind known
  | bind token site => exact mirrored.of_sameShape (ScopeForest.sameShape_declare ..)
  | _ => exact mirrored

theorem Steps.mirrored (steps : Steps origin s t) (known : s.KnowsScope s.scope) (mirrored : s.scopes.Mirrored) :
    t.scopes.Mirrored := by
  induction steps with
  | refl => exact mirrored
  | tail steps step ih => exact step.mirrored (Steps.extends steps known).2 ih

end Grammar

theorem mirrored_of_parse {source : String} {dialect : Dialect} {t : Tree} (parsed : parse source dialect = .ok t) :
    t.scopes.Mirrored := by
  obtain ⟨s, finished, rfl⟩ := finished_of_parse parsed
  exact finished.steps.mirrored Nat.zero_lt_one (ScopeForest.mirrored_single _)

namespace Tree

theorem sameShape_addImportedNames (t : Tree) (importId : NodeId) (names : List String) :
    t.scopes.SameShape (names.foldl (·.addImportedName importId) t).scopes := by
  induction names generalizing t with
  | nil => exact .refl _
  | cons name names ih => exact (ScopeForest.sameShape_declare ..).trans (ih (t.addImportedName importId name))

/-- Edits change the names in scopes and nothing else about them. -/
theorem sameShape_edit (t : Tree) (e : Edit) : t.scopes.SameShape (t.edit e).scopes := by
  refine edit_cases (motive := fun _ u => t.scopes.SameShape u.scopes) t (fun _ => .refl _) ?_ ?_ ?_ ?_ ?_ e
  · intro id name u edited
    obtain ⟨i, -, -, rfl⟩ := rename_eq edited
    exact (ScopeForest.sameShape_undeclare ..).trans (ScopeForest.sameShape_declare ..)
  · intro importId names u edited
    obtain ⟨i, -, -, rfl⟩ := addImportNames_eq edited
    exact t.sameShape_addImportedNames importId names
  · intro module names
    exact sameShape_addImportedNames (t.addNode (.importDeclaration { source := module }) root moduleScope
      t.importPlace.1).2 ⟨t.size⟩ names
  · intro function value setter callee id u edited
    obtain ⟨body, -, -, rfl⟩ := declareState_eq edited
    exact (ScopeForest.sameShape_declare ..).trans (ScopeForest.sameShape_declare ..)
  · intro function name id u edited
    obtain ⟨body, -, -, rfl⟩ := declareNull_eq edited
    exact ScopeForest.sameShape_declare ..

theorem sameShape_editAll (t : Tree) (edits : List Edit) : t.scopes.SameShape (t.editAll edits).scopes :=
  editAll_induction (motive := fun u => t.scopes.SameShape u.scopes) (.refl _)
    (fun u e same => same.trans (u.sameShape_edit e)) edits

end Tree

/-- The two views of the nesting of scopes agree. However a parsed tree has been edited, a name is bound below a
scope exactly if a scope that lies in it binds the name; the search down the lists and the search up the links find
this out with no more steps than there are scopes. Lying in a scope is a partial order, in which the scopes around
a scope lie in one another. -/
theorem nesting_views_agree {source : String} {dialect : Dialect} {t : Tree} (parsed : parse source dialect = .ok t)
    (edits : List Edit) :
    let f := (t.editAll edits).scopes
    (∀ (s : ScopeId) (name : String),
      f.bindsBelow s name = true ↔ ∃ r : ScopeId, f.isWithin r s = true ∧ f.binds r name = true) ∧
    (∀ s : ScopeId, s.index < f.size →
      (∀ name, f.searchDown name f.size [s] = some (f.bindsBelow s name)) ∧
      ∀ outer, f.searchUp outer f.size s = some (f.isWithin s outer)) ∧
    IsPartialOrder ScopeId (fun s r => f.isWithin s r = true) ∧
    ∀ s : ScopeId, IsChain (fun a b => f.isWithin a b = true) {a | f.isWithin s a = true} := by
  have same := t.sameShape_editAll edits
  have wellFormed := (isWellScoped_of_parse parsed).forest.of_sameShape same
  have mirrored := (mirrored_of_parse parsed).of_sameShape same
  refine ⟨ScopeForest.bindsBelow_iff wellFormed mirrored, fun s known => ⟨fun name => ?_, fun outer => ?_⟩,
    ScopeForest.isPartialOrder_isWithin wellFormed, ScopeForest.isChain_isWithin wellFormed⟩
  · have alone : ∀ r ∈ [s], r.index < (t.editAll edits).scopes.size := fun r here => List.mem_singleton.mp here ▸ known
    have enough := ScopeForest.card_within_le (f := (t.editAll edits).scopes) [s]
    rw [ScopeForest.searchDown_eq wellFormed mirrored name _ alone (List.pairwise_singleton _ s) enough]
    rw [List.any_cons, List.any_nil, Bool.or_false]
  · exact ScopeForest.searchUp_eq wellFormed outer _ known

/-- A function with a loop, in which a block declares a name that has been changed, and with a class. -/
def nestedSource : String :=
  "function f(a) \x7b for (let b of a) \x7b let c = b \x7d return class \x7b x = a \x7d \x7d"

set_option maxRecDepth 100000 in
/-- The new name is found below the function and below the loop, but not below the class; the old one is gone. -/
theorem nesting_around_renamed_name : ∃ t, parse nestedSource .javascript = .ok t ∧
    let f := (t.editAll [.rename ⟨13⟩ "d", .declareNull ⟨1⟩ "e"]).scopes
    f.size = 6 ∧ f.searchDown "d" 6 [⟨1⟩] = some true ∧ f.searchDown "d" 6 [⟨2⟩] = some true ∧
      f.searchDown "d" 6 [⟨4⟩] = some false ∧ f.searchDown "c" 6 [⟨0⟩] = some false ∧
      f.searchUp ⟨1⟩ 6 ⟨3⟩ = some true ∧ ∃ r : ScopeId, f.isWithin r ⟨1⟩ = true ∧ f.binds r "d" = true := by
  obtain ⟨t, parsed, test⟩ := exists_ok_of_test (parse nestedSource .javascript)
    (fun t =>
      let f := (t.editAll [.rename ⟨13⟩ "d", .declareNull ⟨1⟩ "e"]).scopes
      f.size == 6 && f.bindsBelow ⟨1⟩ "d" && f.bindsBelow ⟨2⟩ "d" && !f.bindsBelow ⟨4⟩ "d" &&
        !f.bindsBelow ⟨0⟩ "c" && f.isWithin ⟨3⟩ ⟨1⟩) (by decide +kernel)
  simp only [Bool.and_eq_true, Bool.not_eq_true', beq_iff_eq] at test
  obtain ⟨⟨⟨⟨⟨size, function⟩, loop⟩, other⟩, old⟩, inside⟩ := test
  obtain ⟨below, searches, -⟩ := nesting_views_agree parsed [.rename ⟨13⟩ "d", .declareNull ⟨1⟩ "e"]
  rw [size] at searches
  refine ⟨t, parsed, size, ?_, ?_, ?_, ?_, ?_, (below ⟨1⟩ "d").mp function⟩
  · rw [(searches ⟨1⟩ (by decide)).1, function]
  · rw [(searches ⟨2⟩ (by decide)).1, loop]
  · rw [(searches ⟨4⟩ (by decide)).1, other]
  · rw [(searches ⟨0⟩ (by decide)).1, old]
  · rw [(searches ⟨3⟩ (by decide)).2, inside]

end BindingRepair.Script
