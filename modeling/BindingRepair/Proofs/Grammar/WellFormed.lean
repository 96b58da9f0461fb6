/-
# Parsed trees are well formed

A parsed tree lies in its source as the source is read: nodes inside their parents and one after another,
from character to character, each in a scope inside the scope of its parent. Its identifiers have the names
that stand in the source, and its references are listed in the order in which they stand there.
-/

import BindingRepair.Proofs.Grammar.Grown
import Mathlib.Data.List.Nodup

namespace BindingRepair

namespace Text

/-- The offset is that of a place in front of, between or behind the characters of the text. -/
def IsBoundary (text : List Char) (offset : Nat) : Prop :=
  ∃ before behind, text = before ++ behind ∧ offset = byteLength before

theorem Cursor.Marks.isBoundary {text : List Char} {offset : Nat} (marks : (start text).Marks offset) :
    IsBoundary text offset := by
  obtain ⟨place, ⟨before, parts, there⟩, rfl⟩ := marks
  exact ⟨before, place.rest, parts, there.trans (Nat.zero_add _)⟩

/-- What stands between two places of a text is a slice of it. -/
theorem Cursor.Reaches.slice_eq {text : List Char} {first last : Cursor} (reaches : (start text).Reaches first)
    (further : first.Reaches last) : slice text first.offset last.offset = first.charsTo last := by
  obtain ⟨before, parts, there⟩ := reaches
  obtain ⟨word, parts', there'⟩ := further
  have whole : text = before ++ word ++ last.rest := by
    rw [List.append_assoc, ← parts']
    exact parts
  have offset : first.offset = byteLength before := there.trans (Nat.zero_add _)
  rw [Cursor.charsTo_of_append parts' there', there', offset, whole]
  exact slice_append before word last.rest

end Text

namespace Script

open Text

/-- The tree of a source as it is read. -/
structure Tree.IsWellFormed (t : Tree) : Prop where
  /-- The first node is the module, and it spans the whole source. -/
  root : ∃ n m, t.node? root = some n ∧ n.kind = .module m ∧ n.span = ⟨0, byteLength t.source⟩ ∧ n.parent = none
  /-- Every other node has an earlier one as its parent, which lists it once. -/
  parent : ∀ id n, t.node? id = some n → id ≠ Tree.root → ∃ p m, n.parent = some p ∧ p.index < id.index ∧
    t.node? p = some m ∧ m.children.toList.count id = 1
  /-- A node lists only nodes that have it as their parent. -/
  children : ∀ p m, t.node? p = some m → ∀ c ∈ m.children, ∃ n, t.node? c = some n ∧ n.parent = some p
  /-- A node lies inside its parent. -/
  within : ∀ id n p m, t.node? id = some n → n.parent = some p → t.node? p = some m →
    m.span.start ≤ n.span.start ∧ n.span.stop ≤ m.span.stop
  /-- The children of a node stand one behind the other. -/
  siblings : ∀ p, (t.childrenOf p).Pairwise fun a b => (t.spanOf a).stop ≤ (t.spanOf b).start
  /-- All spans are stretches of whole characters. -/
  boundaries : ∀ id n, t.node? id = some n →
    n.span.start ≤ n.span.stop ∧ IsBoundary t.source n.span.start ∧ IsBoundary t.source n.span.stop
  /-- The name of an identifier is what stands in the source, with the escapes decoded. -/
  names : ∀ id n i, t.node? id = some n → n.kind = .identifier i →
    i.name = String.ofList (Grammar.decodeEscapes none (n.span.chars t.source))
  /-- Scopes lie in earlier ones. -/
  scopes : ∀ s p, t.scopes.parent? s = some p → p.index < s.index
  /-- The scope of a node lies in the scope of its parent, unless a `var` declares the node. -/
  nested : ∀ id n p m, t.node? id = some n → n.parent = some p → t.node? p = some m → ¬n.IsVar →
    t.scopes.isWithin n.scope m.scope = true
  /-- What a `var` declares is in the nearest scope of a function or of the module. -/
  hoisted : ∀ id n p m, t.node? id = some n → n.parent = some p → t.node? p = some m → n.IsVar →
    (t.scopes.chain m.scope).find? (fun s => (t.scopes.get? s).any (·.kind.holdsVars)) = some n.scope
  /-- All identifiers that refer to something are listed, and nothing else is. -/
  references : ∀ id, id ∈ t.references ↔ IsReference t.nodes id
  /-- The references are listed in the order in which they begin. -/
  ascending : t.references.toList.Pairwise fun a b => (t.spanOf a).start < (t.spanOf b).start

namespace Grammar

section Complete

variable {origin : Cursor} {s : State}

/-- A node that is not the first has a parent that lists it once. -/
theorem State.Grown.exists_parent (grown : s.Grown origin) {id : NodeId} {n : Node}
    (found : s.nodes[id.index]? = some n) (other : id ≠ Tree.root) : ∃ p m, n.parent = some p ∧
      p.index < id.index ∧ s.nodes[p.index]? = some m ∧ m.children.toList.count id = 1 := by
  cases parent : n.parent with
  | none =>
      have first := grown.layout.rooted _ n found parent
      exact absurd (show id = ⟨0⟩ by rw [← first]) other
  | some p =>
      have lt := grown.layout.parent_lt _ n p found parent
      have known := (Array.getElem?_eq_some_iff.mp found).choose
      have there := Array.getElem?_eq_getElem (Nat.lt_trans lt known)
      refine ⟨p, _, rfl, lt, there, ?_⟩
      rw [grown.layout.children _ _ there]
      apply List.count_eq_one_of_mem
      · apply (pairwise_childrenIn s.nodes p).imp
        rintro a b before rfl
        exact Nat.lt_irrefl _ before
      · exact mem_childrenIn.mpr (Option.bind_eq_some_iff.mpr ⟨n, found, parent⟩)

/-- The children of a node stand one behind the other. -/
theorem State.Grown.siblings (grown : s.Grown origin) {p : NodeId} {m : Node}
    (found : s.nodes[p.index]? = some m) : m.children.toList.Pairwise fun a b =>
      ∀ n k, s.nodes[a.index]? = some n → s.nodes[b.index]? = some k → n.span.stop ≤ k.span.start := by
  rw [grown.layout.children _ m found]
  apply List.Pairwise.imp_of_mem _ (pairwise_childrenIn s.nodes p)
  intro a b first second before n k here there
  have inside {id : NodeId} {x : Node} (child : id ∈ childrenIn s.nodes p) (is : s.nodes[id.index]? = some x) :
      x.parent = some p := by
    obtain ⟨y, same, parent⟩ := Option.bind_eq_some_iff.mp (mem_childrenIn.mp child)
    obtain rfl := Option.some.inj (is.symm.trans same)
    exact parent
  exact grown.layout.behind _ _ n k here there before ((inside first here).trans (inside second there).symm)

/-- The references begin one behind the other. -/
theorem State.Grown.references (grown : s.Grown origin) : s.references.toList.Pairwise fun a b =>
    ∀ n k, s.nodes[a.index]? = some n → s.nodes[b.index]? = some k → n.span.start < k.span.start := by
  apply List.Pairwise.imp_of_mem _ grown.ascending
  intro a b first second before n k here there
  obtain ⟨x, i, same, kind, -⟩ := grown.coherent.wellScoped.isReference a (Array.mem_toList_iff.mp first)
  obtain rfl := Option.some.inj (here.symm.trans same)
  have behind := grown.later _ _ n k here there before (by rw [kind]; rfl)
  exact Nat.lt_of_lt_of_le (grown.spells _ n i here kind).nonempty behind

end Complete

/-- The first scope is that of the module. -/
theorem Finished.holdsVars {source : List Char} {s : State} (finished : Finished source s) :
    (s.scopes.get? ⟨0⟩).any (·.kind.holdsVars) = true := by
  have grows := (finished.steps.extends (State.knowsScope_initialState source)).1
  have same := grows.kind_eq ⟨0⟩ Nat.zero_lt_one
  obtain ⟨scope, found, kind⟩ := Option.map_eq_some_iff.mp (same.trans (show _ = some ScopeKind.module from rfl))
  rw [found, Option.any_some, kind]
  rfl

theorem Finished.grown {source : List Char} {s : State} (finished : Finished source s) :
    s.Grown (Cursor.start source) :=
  finished.steps.grown (State.grown_initialState source)

/-- A complete tree is well formed. -/
theorem Finished.isWellFormed {source : List Char} {s : State} (finished : Finished source s)
    (dialect : Dialect) : (Tree.ofState source dialect s).IsWellFormed := by
  have grown := finished.grown
  have layout := grown.layout
  have wellScoped := grown.coherent.wellScoped
  have closed (p : NodeId) : p ∉ s.opened := by
    rw [finished.opened]
    exact List.not_mem_nil
  have spanOf {id : NodeId} {n : Node} (found : s.nodes[id.index]? = some n) :
      (Tree.ofState source dialect s).spanOf id = n.span := by
    simp only [Tree.spanOf, Tree.node?, Tree.ofState, found]
    rfl
  have node {id : NodeId} (known : id.index < s.nodes.size) : ∃ n, s.nodes[id.index]? = some n :=
    ⟨_, Array.getElem?_eq_getElem known⟩
  exact {
    root := by
      obtain ⟨n, m, found, kind, span, -⟩ := finished.root
      refine ⟨n, m, found, kind, span, ?_⟩
      cases parent : n.parent with
      | none => rfl
      | some p => exact absurd (layout.parent_lt 0 n p found parent) (Nat.not_lt_zero _)
    parent := fun id n found other => grown.exists_parent found other
    children := fun p m found c here => by
      rw [← Array.mem_toList_iff, layout.children _ m found] at here
      exact Option.bind_eq_some_iff.mp (mem_childrenIn.mp here)
    within := fun id n p m found parent there =>
      ⟨layout.start _ n p m found parent there, layout.stop _ n p m found parent there (closed p)⟩
    siblings := fun p => by
      unfold Tree.childrenOf
      cases found : (Tree.ofState source dialect s).node? p with
      | none => exact .nil
      | some m =>
          have inRange := (wellScoped.inRange _ m found).children
          refine (grown.siblings found).imp_of_mem fun {a b} first second behind => ?_
          obtain ⟨n, here⟩ := node (inRange a (Array.mem_toList_iff.mp first))
          obtain ⟨k, there⟩ := node (inRange b (Array.mem_toList_iff.mp second))
          rw [spanOf here, spanOf there]
          exact behind n k here there
    boundaries := fun id n found =>
      have on := layout.span _ n found
      ⟨on.ordered, on.start.isBoundary, on.stop.isBoundary⟩
    names := fun id n i found kind => by
      obtain ⟨first, last, reaches, passes, -, span, name, -⟩ := grown.spells _ n i found kind
      rw [name, span]
      exact congrArg (fun cs => String.ofList (decodeEscapes none cs)) (reaches.slice_eq passes.reaches).symm
    scopes := wellScoped.forest.parent?_lt
    nested := fun id n p m found parent there other =>
      (grown.nested _ n p m found parent there).inside other
    hoisted := fun id n p m found parent there is => by
      rw [(grown.nested _ n p m found parent there).hoisted is]
      exact ScopeForest.find?_holdsVars wellScoped.forest finished.holdsVars (wellScoped.inRange _ m there).scope
    references := fun id => ⟨wellScoped.isReference id, grown.listed id⟩
    ascending := by
      refine grown.references.imp_of_mem fun {a b} first second behind => ?_
      obtain ⟨n, here⟩ := node (wellScoped.lt_size (Array.mem_toList_iff.mp first))
      obtain ⟨k, there⟩ := node (wellScoped.lt_size (Array.mem_toList_iff.mp second))
      rw [spanOf here, spanOf there]
      exact behind n k here there }

end Grammar

/-- Of every source that is parsed without an error the tree is well formed. -/
theorem isWellFormed_of_parse {source : String} {dialect : Dialect} {t : Tree}
    (parsed : parse source dialect = .ok t) : t.source = source.toList ∧ t.IsWellFormed := by
  obtain ⟨s, finished, rfl⟩ := finished_of_parse parsed
  exact ⟨rfl, finished.isWellFormed dialect⟩

set_option maxRecDepth 100000 in
/-- In a block of a function a variable with an escape in its name is declared. It belongs to the scope of
the function. -/
theorem isWellFormed_of_hoisted_variable : ∃ t,
    parse "function f() \x7b if (f) \x7b var \\u0062 = f \x7d \x7d" .javascript = .ok t ∧ t.IsWellFormed ∧
      t.name? ⟨9⟩ = some "b" ∧ t.spanOf ⟨9⟩ = ⟨28, 34⟩ ∧ t.scopeOf ⟨8⟩ = ⟨2⟩ ∧ t.scopeOf ⟨9⟩ = ⟨1⟩ := by
  obtain ⟨t, parsed, test⟩ := exists_ok_of_test
    (parse "function f() \x7b if (f) \x7b var \\u0062 = f \x7d \x7d" .javascript)
    (fun t => t.name? ⟨9⟩ == some "b" && t.spanOf ⟨9⟩ == ⟨28, 34⟩ && t.scopeOf ⟨8⟩ == ⟨2⟩ &&
      t.scopeOf ⟨9⟩ == ⟨1⟩) (by decide +kernel)
  simp only [Bool.and_eq_true, beq_iff_eq] at test
  obtain ⟨⟨⟨name, span⟩, block⟩, hoisted⟩ := test
  exact ⟨t, parsed, (isWellFormed_of_parse parsed).2, name, span, block, hoisted⟩

end Script

end BindingRepair
