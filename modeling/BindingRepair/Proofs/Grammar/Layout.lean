/-
# The layout of a growing tree

A tree is built from the text of its nodes in the order of their beginnings. Some nodes are open, each
inside the next; a new node is the last child of the innermost one, begins where all others have ended, and
is open itself. Only the innermost open node is completed. So at every moment a node lies inside its parent
and behind the children before it, and the children of a node are listed in the order of their numbers.
-/

import BindingRepair.Proofs.Grammar.Growth

namespace BindingRepair

/-- Both ends of a span are places in the text, in order. -/
structure Text.Span.On (origin : Text.Cursor) (span : Text.Span) : Prop where
  start : origin.Marks span.start
  stop : origin.Marks span.stop
  ordered : span.start ≤ span.stop

namespace Script

open Text

variable {origin : Cursor} {nodes : Array Node} {opened : List NodeId}

/-! ### Children -/

/-- The parent of a node. -/
def parentIn (nodes : Array Node) (id : NodeId) : Option NodeId :=
  nodes[id.index]?.bind (·.parent)

/-- The nodes that have a node as their parent, in the order of their numbers. -/
def childrenIn (nodes : Array Node) (p : NodeId) : List NodeId :=
  ((List.range nodes.size).map NodeId.mk).filter fun id => parentIn nodes id = some p

theorem mem_childrenIn {p id : NodeId} : id ∈ childrenIn nodes p ↔ parentIn nodes id = some p := by
  simp only [childrenIn, List.mem_filter, List.mem_map, List.mem_range, decide_eq_true_eq]
  constructor
  · exact fun both => both.2
  · intro parent
    obtain ⟨n, found, -⟩ := Option.bind_eq_some_iff.mp parent
    exact ⟨⟨id.index, (Array.getElem?_eq_some_iff.mp found).choose, rfl⟩, parent⟩

theorem pairwise_childrenIn (nodes : Array Node) (p : NodeId) :
    (childrenIn nodes p).Pairwise fun a b => a.index < b.index := by
  apply List.Pairwise.filter
  rw [List.pairwise_map]
  exact List.pairwise_lt_range

theorem childrenIn_congr {nodes' : Array Node} (size : nodes'.size = nodes.size)
    (parent : ∀ id, parentIn nodes' id = parentIn nodes id) (p : NodeId) :
    childrenIn nodes' p = childrenIn nodes p := by
  unfold childrenIn
  rw [size]
  apply List.filter_congr
  intro id _
  rw [parent]

theorem parentIn_appendNode (nodes : Array Node) (kind : NodeKind) (span : Span) (scope : ScopeId)
    (parent : Option NodeId) (id : NodeId) :
    parentIn (appendNode nodes kind span scope parent) id =
      if id.index = nodes.size then parent else parentIn nodes id := by
  unfold parentIn
  rw [getElem?_appendNode]
  by_cases new : id.index = nodes.size
  · rw [if_pos new, if_pos new]
    rfl
  · rw [if_neg new, if_neg new]
    split
    · cases nodes[id.index]? with
      | none => rfl
      | some n => rfl
    · rfl

theorem le_size_of_appendNode {kind : NodeKind} {span : Span} {scope : ScopeId} {parent : Option NodeId} {i : Nat}
    {n : Node} (found : (appendNode nodes kind span scope parent)[i]? = some n) : i ≤ nodes.size := by
  rcases appendNode_cases found with ⟨last, -⟩ | ⟨known, -⟩
  · exact Nat.le_of_eq last
  · exact Nat.le_of_lt known

/-- A node that is added inside an old one has no children yet. -/
theorem getElem?_appendNode_size {kind : NodeKind} {span : Span} {scope : ScopeId} {parent : Option NodeId}
    (known : ∀ p, parent = some p → p.index < nodes.size) :
    (appendNode nodes kind span scope parent)[nodes.size]? = some ⟨kind, span, scope, parent, #[]⟩ := by
  rw [getElem?_appendNode, if_pos rfl, if_neg]
  exact fun is => Nat.lt_irrefl _ (known _ is)

/-- The nodes there were keep their parents. -/
theorem parent_appendNode {kind : NodeKind} {span : Span} {scope : ScopeId} {parent : Option NodeId} (i : Nat)
    (n : Node) (found : nodes[i]? = some n) :
    ∃ m, (appendNode nodes kind span scope parent)[i]? = some m ∧ m.parent = n.parent := by
  have old : i ≠ nodes.size := by
    rintro rfl
    simp at found
  rw [getElem?_appendNode, if_neg old, found]
  split
  · exact ⟨_, rfl, rfl⟩
  · exact ⟨n, rfl, rfl⟩

theorem childrenIn_appendNode (nodes : Array Node) (kind : NodeKind) (span : Span) (scope : ScopeId)
    (parent : Option NodeId) (p : NodeId) :
    childrenIn (appendNode nodes kind span scope parent) p =
      childrenIn nodes p ++ if parent = some p then [⟨nodes.size⟩] else [] := by
  have old : ∀ id ∈ (List.range nodes.size).map NodeId.mk,
      parentIn (appendNode nodes kind span scope parent) id = parentIn nodes id := by
    intro id here
    obtain ⟨i, known, rfl⟩ := List.mem_map.mp here
    rw [parentIn_appendNode, if_neg (Nat.ne_of_lt (List.mem_range.mp known))]
  unfold childrenIn
  rw [size_appendNode, List.range_succ, List.map_append, List.filter_append]
  congr 1
  · apply List.filter_congr
    intro id here
    rw [old id here]
  · simp only [List.map_cons, List.map_nil, List.filter_cons, List.filter_nil, parentIn_appendNode, if_true,
      decide_eq_true_eq]

section AppendNode

variable (children : ∀ (i : Nat) (n : Node), nodes[i]? = some n → n.children.toList = childrenIn nodes ⟨i⟩)
  (below : ∀ id p : NodeId, parentIn nodes id = some p → p.index < id.index)

include below in
/-- No node there is hangs below one that is still to come. -/
theorem childrenIn_size : childrenIn nodes ⟨nodes.size⟩ = [] := by
  refine List.eq_nil_iff_forall_not_mem.mpr fun id here => ?_
  have parent := mem_childrenIn.mp here
  obtain ⟨m, there, -⟩ := Option.bind_eq_some_iff.mp parent
  have inside : id.index < nodes.size := (Array.getElem?_eq_some_iff.mp there).choose
  exact Nat.lt_irrefl _ (Nat.lt_trans (below id _ parent) inside)

include children below in
/-- Where the nodes list their children, so do they with a new node below an old one. -/
theorem children_appendNode {kind : NodeKind} {span : Span} {scope : ScopeId} {parent : Option NodeId}
    (known : ∀ p, parent = some p → p.index < nodes.size) {i : Nat} {n : Node}
    (found : (appendNode nodes kind span scope parent)[i]? = some n) :
    n.children.toList = childrenIn (appendNode nodes kind span scope parent) ⟨i⟩ := by
  rw [childrenIn_appendNode]
  by_cases new : i = nodes.size
  · subst new
    have outside : ¬ parent = some ⟨nodes.size⟩ := fun is => Nat.lt_irrefl _ (known _ is)
    obtain rfl := Option.some.inj ((getElem?_appendNode_size known).symm.trans found)
    rw [childrenIn_size below, if_neg outside]
    rfl
  · rw [getElem?_appendNode, if_neg new] at found
    split at found
    · rename_i is
      obtain ⟨m, old, rfl⟩ := Option.map_eq_some_iff.mp found
      rw [if_pos is, Array.toList_push, children i m old]
    · rename_i other
      rw [if_neg other, List.append_nil, children i n found]

end AppendNode

/-! ### Open nodes -/

/-- Each of the open nodes is the parent of the one before it in the list, and the last has no parent. -/
inductive OpenIn (nodes : Array Node) : List NodeId → Prop
  | nil : OpenIn nodes []
  | cons {id : NodeId} {rest : List NodeId} {n : Node} (found : nodes[id.index]? = some n)
      (parent : n.parent = rest.head?) (inner : OpenIn nodes rest) : OpenIn nodes (id :: rest)

namespace OpenIn

theorem found (isOpen : OpenIn nodes opened) {id : NodeId} (here : id ∈ opened) :
    ∃ n, nodes[id.index]? = some n := by
  induction isOpen with
  | nil => exact absurd here List.not_mem_nil
  | cons found _ _ ih =>
      rcases List.mem_cons.mp here with rfl | rest
      · exact ⟨_, found⟩
      · exact ih rest

theorem known (isOpen : OpenIn nodes opened) {id : NodeId} (here : id ∈ opened) : id.index < nodes.size := by
  obtain ⟨n, found⟩ := isOpen.found here
  exact (Array.getElem?_eq_some_iff.mp found).choose

/-- Nodes that keep their parents stay open. -/
theorem mono {nodes' : Array Node} (isOpen : OpenIn nodes opened)
    (kept : ∀ (i : Nat) (n : Node), nodes[i]? = some n → ∃ m, nodes'[i]? = some m ∧ m.parent = n.parent) :
    OpenIn nodes' opened := by
  induction isOpen with
  | nil => exact .nil
  | cons found parent _ ih =>
      obtain ⟨m, found', same⟩ := kept _ _ found
      exact .cons found' (same.trans parent) ih

theorem parent_head {id : NodeId} {rest : List NodeId} (isOpen : OpenIn nodes (id :: rest)) {n : Node}
    (found : nodes[id.index]? = some n) : n.parent = rest.head? := by
  cases isOpen with
  | cons here parent _ =>
      obtain rfl := Option.some.inj (here.symm.trans found)
      exact parent

theorem tail {id : NodeId} {rest : List NodeId} (isOpen : OpenIn nodes (id :: rest)) : OpenIn nodes rest := by
  cases isOpen with
  | cons _ _ inner => exact inner

/-- The innermost open node has the greatest number. -/
theorem le_head (isOpen : OpenIn nodes opened)
    (parent_lt : ∀ (i : Nat) (n : Node) (p : NodeId), nodes[i]? = some n → n.parent = some p → p.index < i)
    {id head : NodeId} (here : id ∈ opened) (innermost : opened.head? = some head) : id.index ≤ head.index := by
  induction isOpen generalizing head with
  | nil => exact absurd here List.not_mem_nil
  | @cons top rest n found parent inner ih =>
      obtain rfl := Option.some.inj innermost
      rcases List.mem_cons.mp here with rfl | deeper
      · exact Nat.le_refl _
      · cases next : rest.head? with
        | none =>
            rw [List.head?_eq_none_iff.mp next] at deeper
            exact absurd deeper List.not_mem_nil
        | some p =>
            have below : p.index < top.index := parent_lt _ n p found (parent.trans next)
            exact Nat.le_trans (ih deeper next) (Nat.le_of_lt below)

end OpenIn

/-! ### Changes of the nodes -/

theorem parentIn_modify {k : Nat} {change : Node → Node} (same : ∀ n, (change n).parent = n.parent)
    (id : NodeId) : parentIn (nodes.modify k change) id = parentIn nodes id := by
  unfold parentIn
  rw [Array.getElem?_modify]
  split
  · cases nodes[id.index]? with
    | none => rfl
    | some n => exact same n
  · rfl

theorem parent_modify {k : Nat} {change : Node → Node} (same : ∀ n, (change n).parent = n.parent) (i : Nat)
    (n : Node) (found : nodes[i]? = some n) : ∃ m, (nodes.modify k change)[i]? = some m ∧ m.parent = n.parent := by
  rw [Array.getElem?_modify, found]
  split
  · exact ⟨_, rfl, same n⟩
  · exact ⟨n, rfl, rfl⟩

theorem childrenIn_modify {k : Nat} {change : Node → Node} (same : ∀ n, (change n).parent = n.parent) (p : NodeId) :
    childrenIn (nodes.modify k change) p = childrenIn nodes p :=
  childrenIn_congr Array.size_modify (parentIn_modify same) p

/-- A node that is complete is one that was opened and has been closed. -/
theorem appendNode_eq_modify (nodes : Array Node) (kind : NodeKind) {start stop : Nat} (scope : ScopeId)
    (parent : Option NodeId) (ordered : start ≤ stop) :
    appendNode nodes kind ⟨start, stop⟩ scope parent =
      (appendNode nodes kind (Span.emptyAt start) scope parent).modify nodes.size fun n =>
        { n with span := { n.span with stop := max stop n.span.start } } := by
  apply Array.ext_getElem?
  intro i
  rw [Array.getElem?_modify, getElem?_appendNode, getElem?_appendNode]
  by_cases new : i = nodes.size
  · rw [if_pos new, if_pos new, if_pos new.symm, Option.map_some]
    simp only [Span.emptyAt, Nat.max_eq_left ordered]
  · rw [if_neg new, if_neg new, if_neg (Ne.symm new)]

/-! ### The layout -/

/-- The nodes lie in the text as they lie in the tree. Where a node ends is settled when it is not open
any more. -/
structure Layout (origin : Cursor) (nodes : Array Node) (opened : List NodeId) : Prop where
  isOpen : OpenIn nodes opened
  rooted : ∀ (i : Nat) (n : Node), nodes[i]? = some n → n.parent = none → i = 0
  parent_lt : ∀ (i : Nat) (n : Node) (p : NodeId), nodes[i]? = some n → n.parent = some p → p.index < i
  children : ∀ (i : Nat) (n : Node), nodes[i]? = some n → n.children.toList = childrenIn nodes ⟨i⟩
  span : ∀ (i : Nat) (n : Node), nodes[i]? = some n → n.span.On origin
  start : ∀ (i : Nat) (n : Node) (p : NodeId) (m : Node), nodes[i]? = some n → n.parent = some p →
    nodes[p.index]? = some m → m.span.start ≤ n.span.start
  stop : ∀ (i : Nat) (n : Node) (p : NodeId) (m : Node), nodes[i]? = some n → n.parent = some p →
    nodes[p.index]? = some m → p ∉ opened → n.span.stop ≤ m.span.stop
  behind : ∀ (i j : Nat) (n m : Node), nodes[i]? = some n → nodes[j]? = some m → i < j →
    n.parent = m.parent → n.span.stop ≤ m.span.start
  /-- Behind an open node only nodes inside it have been added. -/
  above : ∀ o ∈ opened, ∀ (i : Nat) (n : Node) (p : NodeId), nodes[i]? = some n → o.index < i →
    n.parent = some p → o.index ≤ p.index
  filled : ∀ (i : Nat) (n : Node), nodes[i]? = some n → ⟨i⟩ ∉ opened →
    n.span.start < n.span.stop ∨ n.span.start = origin.ends

namespace Layout

theorem empty : Layout origin #[] [] where
  isOpen := .nil
  rooted i n found := by cases found
  parent_lt i n p found := by cases found
  children i n found := by cases found
  span i n found := by cases found
  start i n p m found := by cases found
  stop i n p m found := by cases found
  behind i j n m found := by cases found
  above o here := absurd here List.not_mem_nil
  filled i n found := by cases found

/-- A change of the kind of a node leaves the layout as it is. -/
theorem setKind (layout : Layout origin nodes opened) (id : NodeId) (kind : NodeKind) :
    Layout origin (nodes.modify id.index fun n => { n with kind }) opened := by
  have same {i : Nat} {n : Node} (found : (nodes.modify id.index fun n => { n with kind })[i]? = some n) :
      ∃ m, nodes[i]? = some m ∧ n.span = m.span ∧ n.parent = m.parent ∧ n.children = m.children := by
    obtain ⟨m, old, ⟨-, rfl⟩ | ⟨-, rfl⟩⟩ := modify_cases found
    · exact ⟨m, old, rfl, rfl, rfl⟩
    · exact ⟨n, old, rfl, rfl, rfl⟩
  exact {
    isOpen := layout.isOpen.mono (parent_modify fun _ => rfl)
    rooted := fun i n found none => by
      obtain ⟨m, old, -, parent, -⟩ := same found
      exact layout.rooted i m old (parent ▸ none)
    parent_lt := fun i n p found is => by
      obtain ⟨m, old, -, parent, -⟩ := same found
      exact layout.parent_lt i m p old (parent ▸ is)
    children := fun i n found => by
      obtain ⟨m, old, -, -, children⟩ := same found
      rw [children, layout.children i m old]
      exact (childrenIn_modify (by exact fun _ => rfl) _).symm
    span := fun i n found => by
      obtain ⟨m, old, span, -⟩ := same found
      rw [span]
      exact layout.span i m old
    start := fun i n p m found is there => by
      obtain ⟨n', old, span, parent, -⟩ := same found
      obtain ⟨m', old', span', -⟩ := same there
      rw [span, span']
      exact layout.start i n' p m' old (parent ▸ is) old'
    stop := fun i n p m found is there closed => by
      obtain ⟨n', old, span, parent, -⟩ := same found
      obtain ⟨m', old', span', -⟩ := same there
      rw [span, span']
      exact layout.stop i n' p m' old (parent ▸ is) old' closed
    behind := fun i j n m found there lt is => by
      obtain ⟨n', old, span, parent, -⟩ := same found
      obtain ⟨m', old', span', parent', -⟩ := same there
      rw [span, span']
      exact layout.behind i j n' m' old old' lt (by rw [← parent, ← parent', is])
    above := fun o here i n p found lt is => by
      obtain ⟨m, old, -, parent, -⟩ := same found
      exact layout.above o here i m p old lt (parent ▸ is)
    filled := fun i n found closed => by
      obtain ⟨m, old, span, -⟩ := same found
      rw [span]
      exact layout.filled i m old closed }

theorem parentIn_lt (layout : Layout origin nodes opened) {id p : NodeId} (is : parentIn nodes id = some p) :
    p.index < id.index := by
  obtain ⟨n, found, parent⟩ := Option.bind_eq_some_iff.mp is
  exact layout.parent_lt id.index n p found parent

section OpenNode

variable (layout : Layout origin nodes opened) {kind : NodeKind} {span : Span} {scope : ScopeId}
include layout

/-- The innermost open node is there already. -/
theorem head_lt (p : NodeId) (is : opened.head? = some p) : p.index < nodes.size :=
  layout.isOpen.known (List.mem_of_head? is)

theorem parent_lt_openNode {i : Nat} {n : Node} {p : NodeId}
    (found : (appendNode nodes kind span scope opened.head?)[i]? = some n) (is : n.parent = some p) :
    p.index < i ∧ p.index < nodes.size := by
  rcases appendNode_cases found with ⟨rfl, new⟩ | ⟨known, m, old, same⟩
  · have known := layout.head_lt p (new.parent.symm.trans is)
    exact ⟨known, known⟩
  · have below := layout.parent_lt i m p old (same.parent ▸ is)
    exact ⟨below, Nat.lt_trans below known⟩

end OpenNode

/-- A node is opened inside the innermost open one, where all others have ended. -/
theorem openNode (layout : Layout origin nodes opened) (rooted : opened = [] → nodes.size = 0) {start : Nat}
    (marks : origin.Marks start) (clear : ∀ (i : Nat) (n : Node), nodes[i]? = some n → n.span.stop ≤ start)
    (kind : NodeKind) (scope : ScopeId) :
    Layout origin (appendNode nodes kind (Span.emptyAt start) scope opened.head?) (⟨nodes.size⟩ :: opened) where
  isOpen := .cons (getElem?_appendNode_size layout.head_lt) rfl (layout.isOpen.mono parent_appendNode)
  rooted i n found none := by
    rcases appendNode_cases found with ⟨rfl, new⟩ | ⟨-, m, old, same⟩
    · exact rooted (List.head?_eq_none_iff.mp (new.parent.symm.trans none))
    · exact layout.rooted i m old (same.parent ▸ none)
  parent_lt i n p found is := (layout.parent_lt_openNode found is).1
  children i n := children_appendNode layout.children (fun _ _ => layout.parentIn_lt) layout.head_lt
  span i n found := by
    rcases appendNode_cases found with ⟨-, new⟩ | ⟨-, m, old, same⟩
    · rw [new.span]
      exact ⟨marks, marks, Nat.le_refl _⟩
    · rw [same.span]
      exact layout.span i m old
  start i n p m found is there := by
    rcases appendNode_cases there with ⟨last, -⟩ | ⟨-, m', old', same'⟩
    · exact absurd last (Nat.ne_of_lt (layout.parent_lt_openNode found is).2)
    · rw [same'.span]
      rcases appendNode_cases found with ⟨-, new⟩ | ⟨-, n', old, same⟩
      · rw [new.span]
        exact Nat.le_trans (layout.span _ m' old').ordered (clear _ m' old')
      · rw [same.span]
        exact layout.start i n' p m' old (same.parent ▸ is) old'
  stop i n p m found is there closed := by
    rw [List.mem_cons, not_or] at closed
    rcases appendNode_cases there with ⟨last, -⟩ | ⟨-, m', old', same'⟩
    · exact absurd last (Nat.ne_of_lt (layout.parent_lt_openNode found is).2)
    · rcases appendNode_cases found with ⟨-, new⟩ | ⟨-, n', old, same⟩
      · exact absurd (List.mem_of_head? (new.parent.symm.trans is)) closed.2
      · rw [same.span, same'.span]
        exact layout.stop i n' p m' old (same.parent ▸ is) old' closed.2
  behind i j n m found there lt is := by
    rcases appendNode_cases found with ⟨rfl, -⟩ | ⟨-, n', old, same⟩
    · exact absurd lt (Nat.not_lt.mpr (le_size_of_appendNode there))
    · rw [same.span]
      rcases appendNode_cases there with ⟨-, new⟩ | ⟨-, m', old', same'⟩
      · rw [new.span]
        exact clear i n' old
      · rw [same'.span]
        exact layout.behind i j n' m' old old' lt (by rw [← same.parent, ← same'.parent, is])
  above o here i n p found lt is := by
    rcases List.mem_cons.mp here with rfl | before
    · exact absurd lt (Nat.not_lt.mpr (le_size_of_appendNode found))
    · rcases appendNode_cases found with ⟨-, new⟩ | ⟨-, m, old, same⟩
      · exact layout.isOpen.le_head layout.parent_lt before (new.parent.symm.trans is)
      · exact layout.above o before i m p old lt (same.parent ▸ is)
  filled i n found closed := by
    rcases appendNode_cases found with ⟨rfl, -⟩ | ⟨-, m, old, same⟩
    · exact absurd List.mem_cons_self closed
    · rw [same.span]
      exact layout.filled i m old fun here => closed (List.mem_cons_of_mem _ here)

/-- The innermost open node is completed where all others have ended. -/
theorem closeNode {id : NodeId} {rest : List NodeId} (layout : Layout origin nodes (id :: rest)) {stop : Nat}
    (marks : origin.Marks stop) (clear : ∀ (i : Nat) (n : Node), nodes[i]? = some n → n.span.stop ≤ stop)
    (covers : ∀ n, nodes[id.index]? = some n → n.span.start < stop ∨ n.span.start = origin.ends) :
    Layout origin (nodes.modify id.index fun n =>
      { n with span := { n.span with stop := max stop n.span.start } }) rest := by
  have starts {i : Nat} {n m : Node} (is : i = id.index ∧ n = { m with
      span := { m.span with stop := max stop m.span.start } } ∨ i ≠ id.index ∧ n = m) :
      n.span.start = m.span.start ∧ n.parent = m.parent ∧ n.children = m.children := by
    rcases is with ⟨-, rfl⟩ | ⟨-, rfl⟩
    · exact ⟨rfl, rfl, rfl⟩
    · exact ⟨rfl, rfl, rfl⟩
  exact {
    isOpen := layout.isOpen.tail.mono (parent_modify fun _ => rfl)
    rooted := fun i n found none => by
      obtain ⟨m, old, is⟩ := modify_cases found
      exact layout.rooted i m old ((starts is).2.1 ▸ none)
    parent_lt := fun i n p found parent => by
      obtain ⟨m, old, is⟩ := modify_cases found
      exact layout.parent_lt i m p old ((starts is).2.1 ▸ parent)
    children := fun i n found => by
      obtain ⟨m, old, is⟩ := modify_cases found
      rw [(starts is).2.2, layout.children i m old]
      exact (childrenIn_modify (by exact fun _ => rfl) _).symm
    span := fun i n found => by
      obtain ⟨m, old, ⟨-, rfl⟩ | ⟨-, rfl⟩⟩ := modify_cases found
      · have before := layout.span i m old
        refine ⟨before.start, ?_, Nat.le_max_right ..⟩
        rcases Nat.le_total stop m.span.start with le | le
        · rw [Nat.max_eq_right le]
          exact before.start
        · rw [Nat.max_eq_left le]
          exact marks
      · exact layout.span i n old
    start := fun i n p m found parent there => by
      obtain ⟨n', old, is⟩ := modify_cases found
      obtain ⟨m', old', is'⟩ := modify_cases there
      rw [(starts is).1, (starts is').1]
      exact layout.start i n' p m' old ((starts is).2.1 ▸ parent) old'
    stop := fun i n p m found parent there closed => by
      obtain ⟨n', old, is⟩ := modify_cases found
      obtain ⟨m', old', is'⟩ := modify_cases there
      have parent' : n'.parent = some p := (starts is).2.1 ▸ parent
      rcases is with ⟨rfl, -⟩ | ⟨-, rfl⟩
      · -- The parent of the completed node is open still.
        exact absurd (List.mem_of_head? ((layout.isOpen.parent_head old).symm.trans parent')) closed
      · rcases is' with ⟨-, rfl⟩ | ⟨other, rfl⟩
        · exact Nat.le_trans (clear i n old) (Nat.le_max_left ..)
        · refine layout.stop i n p m old parent' old' ?_
          intro here
          rcases List.mem_cons.mp here with rfl | here
          · exact other rfl
          · exact closed here
    behind := fun i j n m found there lt same => by
      obtain ⟨n', old, is⟩ := modify_cases found
      obtain ⟨m', old', is'⟩ := modify_cases there
      have same' : n'.parent = m'.parent := by rw [← (starts is).2.1, ← (starts is').2.1, same]
      rw [(starts is').1]
      rcases is with ⟨rfl, -⟩ | ⟨-, rfl⟩
      · -- Behind the completed node there are only nodes inside it.
        cases parent : m'.parent with
        | none => exact absurd (layout.rooted j m' old' parent ▸ lt) (Nat.not_lt_zero _)
        | some p =>
            have inside := layout.above id List.mem_cons_self j m' p old' lt parent
            have outside := layout.parent_lt _ n' p old (same'.trans parent)
            exact absurd (Nat.lt_of_le_of_lt inside outside) (Nat.lt_irrefl _)
      · exact layout.behind i j n m' old old' lt same'
    above := fun o here i n p found lt parent => by
      obtain ⟨m, old, is⟩ := modify_cases found
      exact layout.above o (List.mem_cons_of_mem _ here) i m p old lt ((starts is).2.1 ▸ parent)
    filled := fun i n found closed => by
      obtain ⟨m, old, ⟨rfl, rfl⟩ | ⟨other, rfl⟩⟩ := modify_cases found
      · exact (covers m old).imp_left fun lt => Nat.lt_of_lt_of_le lt (Nat.le_max_left ..)
      · refine layout.filled i n old ?_
        intro here
        rcases List.mem_cons.mp here with rfl | here
        · exact other rfl
        · exact closed here }

/-- A complete node is added inside the innermost open one, where all others have ended. -/
theorem addNode (layout : Layout origin nodes opened) (rooted : opened = [] → nodes.size = 0) {span : Span}
    (on : span.On origin) (nonempty : span.start < span.stop)
    (clear : ∀ (i : Nat) (n : Node), nodes[i]? = some n → n.span.stop ≤ span.start) (kind : NodeKind)
    (scope : ScopeId) : Layout origin (appendNode nodes kind span scope opened.head?) opened := by
  rw [show span = ⟨span.start, span.stop⟩ from rfl, appendNode_eq_modify _ _ _ _ on.ordered]
  refine (layout.openNode rooted on.start clear kind scope).closeNode on.stop ?_ ?_
  · intro i n found
    rcases appendNode_cases found with ⟨-, new⟩ | ⟨-, m, old, same⟩
    · rw [new.span]
      exact on.ordered
    · rw [same.span]
      exact Nat.le_trans (clear i m old) on.ordered
  · intro n found
    rcases appendNode_cases found with ⟨-, new⟩ | ⟨known, -⟩
    · rw [new.span]
      exact .inl nonempty
    · exact absurd known (Nat.lt_irrefl _)

end Layout

end Script

end BindingRepair
