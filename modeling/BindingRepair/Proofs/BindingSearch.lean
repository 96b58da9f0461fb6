/-
# The search for bindings at an offset

The search walks down the tree, but not into nodes that begin behind the offset. In the source a node begins
where its parent does or behind it, so no binding is missed; and the nodes that edits have added stand
nowhere in the source, below whatever node they hang. No two names begin at the same offset.
-/

import BindingRepair.Proofs.Entries
import BindingRepair.Proofs.Spacing
import BindingRepair.Proofs.Traversal

namespace BindingRepair.Script

open Text Cursor

namespace Tree

variable {t u : Tree}

/-- Whether the search goes on below a node. -/
def opensAt (t : Tree) (offset : Nat) (id : NodeId) : Bool :=
  !(offset < (t.spanOf id).start && !(t.spanOf id).isEmpty)

/-- Whether a binding in the source begins at the offset. -/
def bindsAt (t : Tree) (offset : Nat) (id : NodeId) : Bool :=
  (t.spanOf id).start == offset && !(t.spanOf id).isEmpty && (t.identifier? id).any (·.site?.isSome)

/-- What the search does at a node. -/
theorem enter_bindingCollector (offset : Nat) {id : NodeId} {n : Node} (found : t.node? id = some n)
    (known : List NodeId) : (bindingCollector offset).enter id n known =
      (if t.opensAt offset id then .descend else .skip, known ++ [id].filter (t.bindsAt offset)) := by
  have span : t.spanOf id = n.span := by rw [spanOf, found]; rfl
  rw [List.filter_cons, List.filter_nil, bindsAt, identifier?, kind?, found, Option.map_some, opensAt, span]
  unfold bindingCollector
  dsimp only
  cases behind : decide (offset < n.span.start) && !n.span.isEmpty with
  | true =>
      have other : (n.span.start == offset) = false := by
        rw [Bool.and_eq_true, decide_eq_true_eq] at behind
        exact beq_eq_false_iff_ne.mpr (Nat.ne_of_gt behind.1)
      simp [other]
  | false =>
      cases n.kind with
      | identifier i =>
          simp only [Bool.false_eq_true, if_false, Bool.not_false, if_true, Option.any_some]
          split
          · rfl
          · rw [List.append_nil]
      | _ => simp

/-- The search lists the bindings that it reaches. -/
theorem traverse_bindingCollector (shaped : t.IsShaped) (offset : Nat) (id : NodeId) (known : List NodeId) :
    t.traverse (bindingCollector offset) id known =
      .ok (known ++ (t.reached (t.opensAt offset) id).filter (t.bindsAt offset)) := by
  induction id using shaped.induction generalizing known with
  | step id ih =>
      rw [reached_eq shaped, ← List.singleton_append, List.filter_append]
      cases found : t.node? id with
      | none =>
          have none : t.childrenOf id = [] := by rw [childrenOf, found]; rfl
          have nowhere : t.bindsAt offset id = false := by
            rw [bindsAt, identifier?, kind?, found, Option.map_none, Option.any_none, Bool.and_false]
          rw [traverse_of_missing found, none]
          simp [nowhere]
      | some n =>
          -- The children add what is found below them, one after the other.
          have children (cs : List NodeId) (inside : ∀ c ∈ cs, c ∈ t.childrenOf id) (known : List NodeId) :
              cs.foldlM (fun known c => t.traverse (bindingCollector offset) c known) known =
                Except.ok (ε := List NodeId)
                  (known ++ (cs.flatMap (t.reached (t.opensAt offset))).filter (t.bindsAt offset)) := by
            induction cs generalizing known with
            | nil => exact congrArg Except.ok (List.append_nil known).symm
            | cons c cs ihc =>
                rw [List.foldlM_cons, ih c (inside c List.mem_cons_self)]
                refine (ihc (fun c here => inside c (List.mem_cons_of_mem _ here)) _).trans ?_
                rw [List.flatMap_cons, List.filter_append, List.append_assoc]
          rw [traverse_eq shaped _ found, enter_bindingCollector offset found]
          cases t.opensAt offset id with
          | true =>
              simp only [if_true, children _ fun _ here => here, List.append_assoc]
              rfl
          | false => simp [bindingCollector]

theorem bindingsAt_eq (shaped : t.IsShaped) (offset : Nat) :
    t.bindingsAt offset = (t.reached (t.opensAt offset) root).filter (t.bindsAt offset) := by
  rw [bindingsAt, walk_eq_traverse shaped, traverse_bindingCollector shaped, List.nil_append]
  rfl

namespace Descends

variable (descends : t.Descends u) (pristine : t.IsPristine)
include descends pristine

/-- The identifiers that were read are those that stand in the source. -/
theorem identifier_of_old {id : NodeId} {i : IdentifierNode} (identifier : u.identifier? id = some i)
    (old : id.index < t.size) : (u.spanOf id).isEmpty = false ∧ i.synthesized = false ∧
      ∃ n, t.node? id = some n ∧ n.kind.isIdentifier = true ∧ t.spanOf id = n.span := by
  obtain ⟨n, found, kind⟩ := identifier?_eq_some_iff.mp identifier
  obtain ⟨m, first, becomes, same, before⟩ := descends.exists_of_old found old
  rw [kind] at becomes
  have solid {j : IdentifierNode} (parsed : m.kind = .identifier j) : (u.spanOf id).isEmpty = false := by
    rw [descends.places.spanOf id old, before, Span.isEmpty, beq_eq_false_iff_ne]
    exact Nat.ne_of_lt (pristine.identifiers id m j first parsed).1
  generalize parsed : m.kind = was at becomes
  cases becomes with
  | same =>
      exact ⟨solid parsed, (pristine.identifiers id m i first parsed).2.2, m, first, by rw [parsed]; rfl, before⟩
  | renamed j name =>
      exact ⟨solid parsed, (pristine.identifiers id m j first parsed).2.2, m, first, by rw [parsed]; rfl, before⟩

omit pristine in
theorem identifier_of_new {id : NodeId} {i : IdentifierNode} (identifier : u.identifier? id = some i)
    (new : t.size ≤ id.index) : (u.spanOf id).isEmpty = true ∧ i.synthesized = true := by
  obtain ⟨n, found, kind⟩ := identifier?_eq_some_iff.mp identifier
  refine ⟨descends.places.isEmpty id new, ?_⟩
  cases descends.new id _ new (by rw [kind?, found, Option.map_some, kind]) with
  | identifier i synthesized => exact synthesized

end Descends

/-- A node in the source that begins at an offset or before it is reached: the nodes around it begin before
it, and so the search goes on below them. -/
theorem mem_reached_of_old (shape : t.KeepsShape u) (places : t.KeepsPlaces u) (laidOut : t.IsLaidOut)
    {offset : Nat} {id : NodeId} (old : id.index < t.size) (begins : (t.spanOf id).start ≤ offset) :
    id ∈ u.reached (u.opensAt offset) root := by
  have shaped := shape.shaped
  -- What is reached from a node is reached from its parent, and so on up to the module.
  have upward (k : Nat) : ∀ id : NodeId, id.index = k → id.index < t.size → (t.spanOf id).start ≤ offset →
      u.reached (u.opensAt offset) id ⊆ u.reached (u.opensAt offset) root := by
    induction k using Nat.strongRecOn with
    | _ k ih =>
        rintro id rfl old begins
        cases parent : parentIn u.nodes id with
        | none =>
            rw [shaped.rooted id (old.trans_le shape.size_le) parent]
            exact List.Subset.refl _
        | some p =>
            have below := shaped.parent_lt id p parent
            have before : p.index < t.size := below.trans old
            have found : t.nodes[id.index]? = some t.nodes[id.index] := Array.getElem?_eq_getElem old
            have found' : t.nodes[p.index]? = some t.nodes[p.index] := Array.getElem?_eq_getElem before
            have was : t.nodes[id.index].parent = some p := by
              have same := (shape.parent id old).symm.trans parent
              rw [parentIn, found] at same
              exact same
            have begins' : (t.spanOf p).start ≤ offset := by
              refine Nat.le_trans ?_ begins
              have isNode : t.node? id = some t.nodes[id.index] := found
              have isNode' : t.node? p = some t.nodes[p.index] := found'
              rw [spanOf, isNode', spanOf, isNode]
              exact laidOut.layout.start _ _ p _ found was found'
            have opens : u.opensAt offset p = true := by
              rw [opensAt, places.spanOf p before, Bool.not_eq_true', Bool.and_eq_false_iff]
              exact .inl (decide_eq_false (Nat.not_lt.mpr begins'))
            have child : id ∈ u.childrenOf p :=
              (mem_childrenOf shaped (before.trans_le shape.size_le)).mpr parent
            exact fun x here => ih p.index below p rfl before begins'
              ((mem_reached shaped _).mpr (.inr ⟨opens, id, child, here⟩))
  exact upward id.index id rfl old begins ((mem_reached shaped _).mpr (.inl rfl))

section Found

variable (descends : t.Descends u) (pristine : t.IsPristine) (laidOut : t.IsLaidOut) (shape : t.KeepsShape u)
include descends pristine laidOut shape

/-- The bindings that are found are those that were read at the offset. -/
theorem mem_bindingsAt_iff {offset : Nat} {id : NodeId} : id ∈ u.bindingsAt offset ↔
    id.index < t.size ∧ (u.spanOf id).start = offset ∧ ∃ i, u.identifier? id = some i ∧ i.site?.isSome = true := by
  constructor
  · intro here
    obtain ⟨i, identifier, binds, begins, solid⟩ := of_mem_bindingsAt here
    refine ⟨?_, begins, i, identifier, binds⟩
    by_contra outside
    rw [(descends.identifier_of_new identifier (Nat.le_of_not_lt outside)).1] at solid
    cases solid
  · rintro ⟨old, begins, i, identifier, binds⟩
    have solid := (descends.identifier_of_old pristine identifier old).1
    rw [bindingsAt_eq shape.shaped, List.mem_filter]
    refine ⟨mem_reached_of_old shape descends.places laidOut old ?_, ?_⟩
    · rw [← descends.places.spanOf id old]
      exact begins.le
    · simp [bindsAt, begins, solid, identifier, binds]

/-- Of two names that were read the first has ended where the second begins, and no name is empty. -/
theorem not_lt_of_mem_bindingsAt {offset : Nat} {a b : NodeId} (first : a ∈ u.bindingsAt offset)
    (second : b ∈ u.bindingsAt offset) : ¬a.index < b.index := by
  intro before
  obtain ⟨old, begins, i, identifier, -⟩ := (mem_bindingsAt_iff descends pristine laidOut shape).mp first
  obtain ⟨old', begins', j, identifier', -⟩ := (mem_bindingsAt_iff descends pristine laidOut shape).mp second
  obtain ⟨solid, -, n, found, isIdentifier, span⟩ := descends.identifier_of_old pristine identifier old
  obtain ⟨-, -, m, found', -, span'⟩ := descends.identifier_of_old pristine identifier' old'
  have behind := laidOut.later _ _ n m found found' before isIdentifier
  rw [descends.places.spanOf a old, span] at begins solid
  rw [descends.places.spanOf b old', span'] at begins'
  rw [Span.isEmpty, beq_eq_false_iff_ne] at solid
  have ordered := (laidOut.layout.span _ n found).ordered
  omega

/-- So one is found at most. -/
theorem length_bindingsAt_le_one (offset : Nat) : (u.bindingsAt offset).length ≤ 1 := by
  have nodup : (u.bindingsAt offset).Nodup := by
    rw [bindingsAt_eq shape.shaped]
    exact (nodup_reached shape.shaped _ _).filter _
  have same (a b : NodeId) (first : a ∈ u.bindingsAt offset) (second : b ∈ u.bindingsAt offset) : a = b := by
    have before := not_lt_of_mem_bindingsAt descends pristine laidOut shape first second
    have behind := not_lt_of_mem_bindingsAt descends pristine laidOut shape second first
    exact congrArg NodeId.mk (Nat.le_antisymm (Nat.le_of_not_lt behind) (Nat.le_of_not_lt before))
  generalize u.bindingsAt offset = found at same nodup ⊢
  cases found with
  | nil => exact Nat.zero_le 1
  | cons a others =>
      cases others with
      | nil => exact Nat.le_refl 1
      | cons b rest =>
          have equal := same a b List.mem_cons_self (List.mem_cons_of_mem a List.mem_cons_self)
          exact absurd (List.mem_cons.mpr (.inl equal)) (List.nodup_cons.mp nodup).1

end Found

end Tree

/-- The search for bindings finds all that it should and nothing else. However a parsed tree has been edited,
at an offset it finds the bindings that were read there, and there is one at most: what was read is what
stands in the source, and what edits have added is never found, wherever it hangs in the tree. -/
theorem bindings_found_where_they_begin {source : String} {dialect : Dialect} {t : Tree}
    (parsed : parse source dialect = .ok t) (edits : List Edit) (offset : Nat) :
    let u := t.editAll edits
    (∀ id, id ∈ u.bindingsAt offset ↔ id.index < t.size ∧ (u.spanOf id).start = offset ∧
      ∃ i, u.identifier? id = some i ∧ i.site?.isSome = true) ∧
    (u.bindingsAt offset).length ≤ 1 ∧
    ∀ id i, u.identifier? id = some i →
      (id.index < t.size ↔ (u.spanOf id).isEmpty = false) ∧ (id.index < t.size ↔ i.synthesized = false) := by
  intro u
  have pristine := isPristine_of_parse parsed
  have laidOut := isLaidOut_of_parse parsed
  have descends : t.Descends u := pristine.descends_editAll edits
  obtain ⟨m, isModule⟩ := pristine.isModule
  have shape : t.KeepsShape u := .editAll (.of_layout laidOut.layout) (Tree.lt_size_of_kind? isModule) edits
  refine ⟨fun _ => Tree.mem_bindingsAt_iff descends pristine laidOut shape,
    Tree.length_bindingsAt_le_one descends pristine laidOut shape offset, fun id i identifier => ?_⟩
  rcases Nat.lt_or_ge id.index t.size with old | new
  · obtain ⟨solid, inText, -⟩ := descends.identifier_of_old pristine identifier old
    exact ⟨iff_of_true old solid, iff_of_true old inText⟩
  · obtain ⟨empty, synthesized⟩ := descends.identifier_of_new identifier new
    exact ⟨iff_of_false (Nat.not_lt.mpr new) (by simp [empty]),
      iff_of_false (Nat.not_lt.mpr new) (by simp [synthesized])⟩

set_option maxRecDepth 100000 in
/-- A renamed parameter is found where it stands, and the name of a new import not where that is written. -/
theorem bindings_beside_new_ones : ∃ t,
    parse "function f(\x7b a \x7d) \x7b return a \x7d" .javascript = .ok t ∧
      let u := t.editAll [.declareNull ⟨1⟩ "b", .rename ⟨3⟩ "c", .insertImport "m" ["h"]]
      ⟨3⟩ ∈ u.bindingsAt 13 ∧ (u.bindingsAt 13).length ≤ 1 ∧ (u.spanOf ⟨10⟩).start = 0 ∧ ⟨10⟩ ∉ u.bindingsAt 0 := by
  obtain ⟨t, parsed, test⟩ := exists_ok_of_test
    (parse "function f(\x7b a \x7d) \x7b return a \x7d" .javascript)
    (fun t =>
      let u := t.editAll [.declareNull ⟨1⟩ "b", .rename ⟨3⟩ "c", .insertImport "m" ["h"]]
      decide (t.size = 7) && (u.spanOf ⟨3⟩).start == 13 && (u.spanOf ⟨10⟩).start == 0 &&
        (u.identifier? ⟨3⟩).any fun i => i.site?.isSome) (by decide +kernel)
  simp only [Bool.and_eq_true, decide_eq_true_eq, beq_iff_eq, Option.any_eq_true] at test
  obtain ⟨⟨⟨size, begins⟩, begins'⟩, identifier⟩ := test
  have found (offset : Nat) := bindings_found_where_they_begin parsed
    [.declareNull ⟨1⟩ "b", .rename ⟨3⟩ "c", .insertImport "m" ["h"]] offset
  refine ⟨t, parsed, ((found 13).1 ⟨3⟩).mpr ⟨?_, begins, identifier⟩, (found 13).2.1, begins', fun here => ?_⟩
  · rw [size]
    decide
  · have old := (((found 0).1 ⟨10⟩).mp here).1
    rw [size] at old
    exact absurd old (by decide)

end BindingRepair.Script
