/-
# The calls of a walk

A walk is told by the calls that it makes to its visitor. `Traverses` gives the calls of the recursive traversal,
rule by rule: a node is entered, then its children are visited in order, then it is left, as far as the visitor
goes along. The walk makes the same calls, and takes no more rounds than calls. A visitor that always goes on is
called twice for each node below the first, and the calls are nested as the nodes are.
-/

import BindingRepair.Proofs.Spacing
import BindingRepair.Proofs.Traversal
import Mathlib.Logic.Function.Iterate
import Mathlib.Logic.Relation

namespace BindingRepair.Script

variable {σ : Type}

/-- A call that a walk makes to its visitor. -/
inductive Call
  | enter (id : NodeId)
  | leave (id : NodeId)
deriving DecidableEq, Repr

/-- The node that a call enters. -/
def Call.entered? : Call → Option NodeId
  | enter id => some id
  | leave _ => none

/-- Every call that enters a node has a later one that leaves it, with nested calls between. -/
inductive ProperlyNested : List Call → Prop
  | nil : ProperlyNested []
  | node {inner rest : List Call} (id : NodeId) (within : ProperlyNested inner) (behind : ProperlyNested rest) :
      ProperlyNested (.enter id :: inner ++ .leave id :: rest)

/-- The visitor that also writes down the calls made to it. -/
def Visitor.recording (v : Visitor σ) : Visitor (List Call × σ) where
  enter id node s := ((v.enter id node s.2).1, s.1 ++ [.enter id], (v.enter id node s.2).2)
  leave id node s := (s.1 ++ [.leave id], v.leave id node s.2)

/-- Nodes are left as often as they are entered. -/
theorem ProperlyNested.count_leave {calls : List Call} (nested : ProperlyNested calls) (id : NodeId) :
    calls.count (.leave id) = calls.count (.enter id) := by
  induction nested with
  | nil => rfl
  | node other within behind ihWithin ihBehind =>
      simp only [List.cons_append, List.count_cons, List.count_append, ihWithin, ihBehind]
      by_cases same : other = id
      · simp [same]
        omega
      · simp [same]

theorem count_enter (calls : List Call) (id : NodeId) :
    calls.count (.enter id) = (calls.filterMap Call.entered?).count id := by
  induction calls with
  | nil => rfl
  | cons call calls ih =>
      cases call with
      | enter other => simp [Call.entered?, List.count_cons, ih]
      | leave other => simp [Call.entered?, List.filterMap_cons, ih]

namespace Tree

variable {t : Tree} {v : Visitor σ} {ids : List NodeId} {s : σ} {calls : List Call} {r : Except σ σ}

/-! ### The recursive traversal -/

/-- Visiting some nodes one after another makes some calls and leads the visitor from a state to its last one,
which is an error if it has stopped the traversal. -/
inductive Traverses (t : Tree) (v : Visitor σ) : List NodeId → σ → List Call → Except σ σ → Prop
  | nil (s : σ) : t.Traverses v [] s [] (.ok s)
  /-- No further call is made. -/
  | stop {id : NodeId} {ids : List NodeId} {node : Node} {s entered : σ} (found : t.node? id = some node)
      (asked : v.enter id node s = (.stop, entered)) : t.Traverses v (id :: ids) s [.enter id] (.error entered)
  /-- The node is left at once. -/
  | skip {id : NodeId} {ids : List NodeId} {node : Node} {s entered : σ} {calls : List Call} {r : Except σ σ}
      (found : t.node? id = some node) (asked : v.enter id node s = (.skip, entered))
      (rest : t.Traverses v ids (v.leave id node entered) calls r) :
      t.Traverses v (id :: ids) s (.enter id :: .leave id :: calls) r
  /-- The node is left when its children have been visited in order. -/
  | descend {id : NodeId} {ids : List NodeId} {node : Node} {s entered visited : σ} {inner calls : List Call}
      {r : Except σ σ} (found : t.node? id = some node) (asked : v.enter id node s = (.descend, entered))
      (children : t.Traverses v node.children.toList entered inner (.ok visited))
      (rest : t.Traverses v ids (v.leave id node visited) calls r) :
      t.Traverses v (id :: ids) s (.enter id :: inner ++ .leave id :: calls) r
  /-- The traversal is stopped below the node, which is not left. -/
  | stopBelow {id : NodeId} {ids : List NodeId} {node : Node} {s entered stopped : σ} {inner : List Call}
      (found : t.node? id = some node) (asked : v.enter id node s = (.descend, entered))
      (children : t.Traverses v node.children.toList entered inner (.error stopped)) :
      t.Traverses v (id :: ids) s (.enter id :: inner) (.error stopped)

/-! ### The rounds of a walk -/

/-- One round of a walk: the first of the steps that wait is done, and others may come before the rest. When the
visitor stops the walk none is left. -/
def walkStep (t : Tree) (v : Visitor σ) : List WalkStep × σ → List WalkStep × σ
  | ([], s) => ([], s)
  | (.enter id :: steps, s) =>
    match t.node? id with
    | none => (steps, s)
    | some node =>
      match v.enter id node s with
      | (.stop, s) => ([], s)
      | (.skip, s) => (steps, v.leave id node s)
      | (.descend, s) => (node.children.toList.map .enter ++ .leave id :: steps, s)
  | (.leave id :: steps, s) =>
    match t.node? id with
    | none => (steps, s)
    | some node => (steps, v.leave id node s)

theorem iterate_walkStep_nil (v : Visitor σ) (n : Nat) (s : σ) : (t.walkStep v)^[n] ([], s) = ([], s) :=
  Function.iterate_fixed rfl n

/-- A walk is as many rounds as it has steps. -/
theorem walkSteps_eq (v : Visitor σ) (n : Nat) (steps : List WalkStep) (s : σ) :
    t.walkSteps v n steps s = ((t.walkStep v)^[n] (steps, s)).2 := by
  induction n generalizing steps s with
  | zero => rw [walkSteps, Function.iterate_zero_apply]
  | succ n ih =>
      rw [Function.iterate_succ_apply]
      cases steps with
      | nil => rw [walkSteps, walkStep, iterate_walkStep_nil]
      | cons step steps =>
          cases step with
          | enter id =>
              rw [walkSteps, walkStep]
              cases t.node? id with
              | none => exact ih steps s
              | some node =>
                  dsimp only
                  rcases v.enter id node s with ⟨visit, entered⟩
                  cases visit with
                  | stop => rw [iterate_walkStep_nil]
                  | skip => exact ih _ _
                  | descend => exact ih _ _
          | leave id =>
              rw [walkSteps, walkStep]
              cases t.node? id with
              | none => exact ih steps s
              | some node => exact ih _ _

/-- The steps that a traversal leaves to do: none if it has been stopped. -/
def remaining (steps : List WalkStep) : Except σ σ → List WalkStep × σ
  | .ok s => (steps, s)
  | .error s => ([], s)

/-- A walk gets over the nodes of a traversal with no more rounds than the traversal makes calls. -/
theorem Traverses.walks (traverses : t.Traverses v ids s calls r) (steps : List WalkStep) :
    ∃ n ≤ calls.length, (t.walkStep v)^[n] (ids.map .enter ++ steps, s) = remaining steps r := by
  induction traverses generalizing steps with
  | nil => exact ⟨0, Nat.le_refl _, rfl⟩
  | @stop id ids node s entered found asked =>
      refine ⟨1, Nat.le_refl _, ?_⟩
      simp [walkStep, found, asked, remaining]
  | @skip id ids node s entered calls r found asked rest ih =>
      obtain ⟨n, most, walked⟩ := ih steps
      refine ⟨n + 1, by simp only [List.length_cons]; omega, ?_⟩
      rw [Function.iterate_succ_apply, List.map_cons, List.cons_append, walkStep, found]
      simpa only [asked] using walked
  | @descend id ids node s entered visited inner calls r found asked children rest ihChildren ihRest =>
      obtain ⟨n, most, walked⟩ := ihChildren (.leave id :: (ids.map .enter ++ steps))
      obtain ⟨m, most', walked'⟩ := ihRest steps
      refine ⟨m + 1 + n + 1, by simp only [List.length_cons, List.length_append]; omega, ?_⟩
      have first : t.walkStep v (.enter id :: (ids.map .enter ++ steps), s) =
          (node.children.toList.map .enter ++ .leave id :: (ids.map .enter ++ steps), entered) := by
        rw [walkStep, found]
        simp only [asked]
      have left : t.walkStep v (.leave id :: (ids.map .enter ++ steps), visited) =
          (ids.map .enter ++ steps, v.leave id node visited) := by
        rw [walkStep, found]
      rw [List.map_cons, List.cons_append, Function.iterate_succ_apply, first, Function.iterate_add_apply, walked,
        remaining, Function.iterate_succ_apply, left, walked']
  | @stopBelow id ids node s entered stopped inner found asked children ih =>
      obtain ⟨n, most, walked⟩ := ih (.leave id :: (ids.map .enter ++ steps))
      refine ⟨n + 1, by simp only [List.length_cons]; omega, ?_⟩
      have first : t.walkStep v (.enter id :: (ids.map .enter ++ steps), s) =
          (node.children.toList.map .enter ++ .leave id :: (ids.map .enter ++ steps), entered) := by
        rw [walkStep, found]
        simp only [asked]
      rw [List.map_cons, List.cons_append, Function.iterate_succ_apply, first, walked]
      rfl

/-- A visitor that has written down some calls. -/
def recorded (calls : List Call) : Except σ σ → Except (List Call × σ) (List Call × σ)
  | .ok s => .ok (calls, s)
  | .error s => .error (calls, s)

theorem enter_recording {id : NodeId} {node : Node} {visit : Visit} {entered : σ}
    (asked : v.enter id node s = (visit, entered)) (before : List Call) :
    v.recording.enter id node (before, s) = (visit, before ++ [.enter id], entered) := by
  simp only [Visitor.recording, asked]

/-- Writing down the calls changes nothing about them. -/
theorem Traverses.recording (traverses : t.Traverses v ids s calls r) (before : List Call) :
    t.Traverses v.recording ids (before, s) calls (recorded (before ++ calls) r) := by
  induction traverses generalizing before with
  | nil =>
      rw [List.append_nil]
      exact .nil _
  | stop found asked => exact .stop found (enter_recording asked before)
  | @skip id ids node s entered calls r found asked rest ih =>
      refine .skip found (enter_recording asked before) ?_
      have joined : before ++ [.enter id] ++ [.leave id] ++ calls = before ++ .enter id :: .leave id :: calls := by simp
      exact joined ▸ ih (before ++ [.enter id] ++ [.leave id])
  | @descend id ids node s entered visited inner calls r found asked children rest ihChildren ihRest =>
      refine .descend found (enter_recording asked before) (ihChildren (before ++ [.enter id])) ?_
      have joined : before ++ [.enter id] ++ inner ++ [.leave id] ++ calls =
          before ++ (.enter id :: inner ++ .leave id :: calls) := by simp
      exact joined ▸ ihRest (before ++ [.enter id] ++ inner ++ [.leave id])
  | @stopBelow id ids node s entered stopped inner found asked children ih =>
      have below := ih (before ++ [.enter id])
      rw [List.append_assoc] at below
      exact .stopBelow found (enter_recording asked before) below

/-- Of a node that is in the tree the children are those that it lists, and the nodes below are below these. -/
theorem below_eq (shaped : t.IsShaped) {id : NodeId} {node : Node} (found : t.node? id = some node) :
    t.below id = id :: node.children.toList.flatMap t.below := by
  rw [below, reached_eq shaped, if_pos rfl, childrenOf, found]
  rfl

theorem length_below_cons (shaped : t.IsShaped) {id : NodeId} {node : Node} (found : t.node? id = some node)
    (ids : List NodeId) : ((id :: ids).flatMap t.below).length =
      (node.children.toList.flatMap t.below).length + 1 + (ids.flatMap t.below).length := by
  rw [List.flatMap_cons, List.length_append, below_eq shaped found, List.length_cons]

/-- A traversal makes two calls at most for each node. -/
theorem Traverses.length_le (shaped : t.IsShaped) (traverses : t.Traverses v ids s calls r) :
    calls.length ≤ 2 * (ids.flatMap t.below).length := by
  induction traverses with
  | nil => exact Nat.zero_le _
  | stop found asked =>
      rw [length_below_cons shaped found, List.length_singleton]
      omega
  | skip found asked rest ih =>
      rw [length_below_cons shaped found, List.length_cons, List.length_cons]
      omega
  | descend found asked children rest ihChildren ihRest =>
      rw [length_below_cons shaped found, List.length_append, List.length_cons, List.length_cons]
      omega
  | stopBelow found asked children ih =>
      rw [length_below_cons shaped found, List.length_cons]
      omega

/-- A walk is over after two rounds at most for each node of the tree, in the last state of the traversal. -/
theorem Traverses.finishes (shaped : t.IsShaped) {start : NodeId} (known : start.index < t.size)
    (traverses : t.Traverses v [start] s calls r) :
    ∃ n ≤ 2 * t.size, (t.walkStep v)^[n] ([.enter start], s) = ([], lastState r) := by
  obtain ⟨n, most, walked⟩ := traverses.walks []
  have few := traverses.length_le shaped
  rw [List.flatMap_cons, List.flatMap_nil, List.append_nil] at few
  have fits : (t.below start).length ≤ t.size := length_reached_le shaped _ known
  refine ⟨n, by omega, walked.trans ?_⟩
  cases r with
  | ok s => rfl
  | error s => rfl

theorem Traverses.walk_eq (shaped : t.IsShaped) {start : NodeId} (known : start.index < t.size)
    (traverses : t.Traverses v [start] s calls r) : t.walk start v s = lastState r := by
  obtain ⟨n, enough, finished⟩ := traverses.finishes shaped known
  obtain ⟨k, more⟩ : ∃ k, 2 * t.size + 1 = k + n := ⟨2 * t.size + 1 - n, by omega⟩
  rw [walk, walkSteps_eq, more, Function.iterate_add_apply, finished, iterate_walkStep_nil]

theorem Traverses.walk_recording (shaped : t.IsShaped) {start : NodeId} (known : start.index < t.size)
    (traverses : t.Traverses v [start] s calls r) :
    t.walk start v.recording ([], s) = (calls, lastState r) := by
  rw [(traverses.recording []).walk_eq shaped known]
  cases r with
  | ok s => rfl
  | error s => rfl

/-! ### Every visitor traverses every part of a tree -/

/-- Some nodes are traversed from every state. -/
def TraversesAll (t : Tree) (v : Visitor σ) (ids : List NodeId) : Prop :=
  ∀ s, ∃ calls r, t.Traverses v ids s calls r

/-- If the children of a node are traversed, so is the node, before others. -/
theorem traversesAll_cons {id : NodeId} {node : Node} (found : t.node? id = some node)
    (children : t.TraversesAll v node.children.toList) (rest : t.TraversesAll v ids) :
    t.TraversesAll v (id :: ids) := by
  intro s
  rcases asked : v.enter id node s with ⟨visit, entered⟩
  cases visit with
  | stop => exact ⟨_, _, .stop found asked⟩
  | skip =>
      obtain ⟨calls, r, traverses⟩ := rest (v.leave id node entered)
      exact ⟨_, _, .skip found asked traverses⟩
  | descend =>
      obtain ⟨inner, r, below⟩ := children entered
      cases r with
      | error stopped => exact ⟨_, _, .stopBelow found asked below⟩
      | ok visited =>
          obtain ⟨calls, r, traverses⟩ := rest (v.leave id node visited)
          exact ⟨_, _, .descend found asked below traverses⟩

theorem traversesAll_of_known (shaped : t.IsShaped) (v : Visitor σ) {id : NodeId} (known : id.index < t.size)
    (rest : t.TraversesAll v ids) : t.TraversesAll v (id :: ids) := by
  induction id using shaped.induction generalizing ids with
  | step id ih =>
      have found : t.node? id = some t.nodes[id.index] := Array.getElem?_eq_getElem known
      have children : ∀ c ∈ t.nodes[id.index].children.toList, c ∈ t.childrenOf id := by
        intro c listed
        rwa [childrenOf, found]
      refine traversesAll_cons found ?_ rest
      generalize t.nodes[id.index].children.toList = below at children
      induction below with
      | nil => exact fun s => ⟨[], .ok s, .nil s⟩
      | cons c below further =>
          have child := children c List.mem_cons_self
          refine ih c child (lt_of_mem_childrenOf shaped child).2 ?_
          exact further fun c' listed => children c' (List.mem_cons_of_mem _ listed)

/-! ### Visitors that always go on -/

/-- The nodes of the part of a tree below a node, with the node itself: its children, their children and so on. -/
def IsBelow (t : Tree) : NodeId → NodeId → Prop :=
  Relation.ReflTransGen fun p c => c ∈ t.childrenOf p

theorem mem_below_iff (shaped : t.IsShaped) {start id : NodeId} : id ∈ t.below start ↔ t.IsBelow start id := by
  induction start using shaped.induction with
  | step start ih =>
      rw [below, mem_reached shaped, IsBelow, Relation.ReflTransGen.cases_head_iff, eq_comm]
      refine or_congr_right ⟨?_, ?_⟩
      · rintro ⟨-, c, child, deeper⟩
        exact ⟨c, child, (ih c child).mp deeper⟩
      · rintro ⟨c, child, deeper⟩
        exact ⟨rfl, c, child, (ih c child).mpr deeper⟩

/-- With a visitor that always goes on the nodes are entered in the order of the text, and the calls are nested. -/
theorem Traverses.nested (shaped : t.IsShaped) (always : ∀ id node s, (v.enter id node s).1 = .descend)
    (traverses : t.Traverses v ids s calls r) :
    (∃ last, r = .ok last) ∧ ProperlyNested calls ∧ calls.filterMap Call.entered? = ids.flatMap t.below := by
  induction traverses with
  | nil s => exact ⟨⟨s, rfl⟩, .nil, rfl⟩
  | @stop id ids node s entered found asked =>
      have descends := always id node s
      rw [asked] at descends
      cases descends
  | @skip id ids node s entered calls r found asked rest ih =>
      have descends := always id node s
      rw [asked] at descends
      cases descends
  | @descend id ids node s entered visited inner calls r found asked children rest ihChildren ihRest =>
      obtain ⟨-, within, below⟩ := ihChildren
      obtain ⟨last, behind, further⟩ := ihRest
      refine ⟨last, .node id within behind, ?_⟩
      rw [List.filterMap_append, List.filterMap_cons, List.filterMap_cons, List.flatMap_cons, below_eq shaped found]
      simp only [Call.entered?, below, further]
  | stopBelow found asked children ih =>
      obtain ⟨⟨last, finished⟩, -⟩ := ih
      cases finished

/-- With a visitor that always goes on a node is entered once and left once if it is below the first, else never. -/
theorem Traverses.count_calls (shaped : t.IsShaped) (always : ∀ id node s, (v.enter id node s).1 = .descend)
    {start : NodeId} (traverses : t.Traverses v [start] s calls r) (id : NodeId) :
    (t.IsBelow start id → calls.count (.enter id) = 1 ∧ calls.count (.leave id) = 1) ∧
    (¬ t.IsBelow start id → .enter id ∉ calls ∧ .leave id ∉ calls) := by
  obtain ⟨-, nested, entered⟩ := traverses.nested shaped always
  rw [List.flatMap_cons, List.flatMap_nil, List.append_nil] at entered
  rw [← List.count_eq_zero, ← List.count_eq_zero, nested.count_leave, count_enter, entered, ← mem_below_iff shaped]
  refine ⟨fun inside => ?_, fun outside => ?_⟩
  · have once := List.count_eq_one_of_mem (nodup_reached shaped _ start) inside
    exact ⟨once, once⟩
  · have never := List.count_eq_zero.mpr outside
    exact ⟨never, never⟩

end Tree

/-- The walk is the recursive traversal. Through a parsed and edited tree, from any of its nodes and with any
visitor, it makes the calls of the traversal and leads the visitor to the same state, with two rounds at most for
each node of the tree. A visitor that always goes on is called to enter and to leave each node below the first
once, and no other, and the calls are nested. -/
theorem walk_is_traversal {source : String} {dialect : Dialect} {t : Tree} (parsed : parse source dialect = .ok t)
    (edits : List Edit) (v : Visitor σ) {start : NodeId} (known : start.index < (t.editAll edits).size) (s : σ) :
    let u := t.editAll edits
    (∃ n ≤ 2 * u.size, (u.walkStep v)^[n] ([.enter start], s) = ([], u.walk start v s)) ∧
    (∀ calls last, (∃ r, u.Traverses v [start] s calls r ∧ Tree.lastState r = last) ↔
      u.walk start v.recording ([], s) = (calls, last)) ∧
    ∃ calls, u.walk start v.recording ([], s) = (calls, u.walk start v s) ∧
      ((∀ id node s, (v.enter id node s).1 = .descend) → ProperlyNested calls ∧ ∀ id,
        (u.IsBelow start id → calls.count (.enter id) = 1 ∧ calls.count (.leave id) = 1) ∧
        (¬ u.IsBelow start id → .enter id ∉ calls ∧ .leave id ∉ calls)) := by
  intro u
  have laidOut := isLaidOut_of_parse parsed
  have shaped : u.IsShaped :=
    (Tree.KeepsShape.editAll (.of_layout laidOut.layout) (size_pos_of_parse parsed) edits).shaped
  have none : u.TraversesAll v [] := fun s => ⟨[], .ok s, .nil s⟩
  obtain ⟨calls, r, traverses⟩ := Tree.traversesAll_of_known shaped v known none s
  have told := traverses.walk_recording shaped known
  have same := traverses.walk_eq shaped known
  refine ⟨?_, fun calls' last => ⟨?_, fun recorded => ?_⟩, calls, same ▸ told, fun always => ⟨?_, fun id => ?_⟩⟩
  · exact same ▸ traverses.finishes shaped known
  · rintro ⟨r', other, rfl⟩
    exact other.walk_recording shaped known
  · obtain ⟨rfl, rfl⟩ := Prod.mk.inj (told.symm.trans recorded)
    exact ⟨r, traverses, rfl⟩
  · exact (traverses.nested shaped always).2.1
  · exact traverses.count_calls shaped always id

/-- Counts the names that it enters, goes past what is below them, and stops at the third. -/
def thirdNameVisitor : Visitor Nat where
  enter _ node n :=
    match node.kind with
    | .identifier _ => if n = 2 then (.stop, n) else (.skip, n + 1)
    | _ => (.descend, n)
  leave _ _ n := n

/-- Counts the calls made to it. -/
def callCounter : Visitor Nat where
  enter _ _ n := (.descend, n + 1)
  leave _ _ n := n + 1

set_option maxRecDepth 100000 in
/-- The third name is that of a parameter. Neither it nor its function nor the module is left. In the function, to
which a variable has been added, nested calls enter and leave eight nodes. -/
theorem walk_to_third_name : ∃ t,
    parse "const a = 1;\nfunction f(b) \x7b c; \x7d\nd;" .javascript = .ok t ∧
    let u := t.editAll [.declareNull ⟨4⟩ "e"]
    (∃ r, u.Traverses thirdNameVisitor [Tree.root] 0 [.enter ⟨0⟩, .enter ⟨1⟩, .enter ⟨2⟩, .enter ⟨3⟩, .leave ⟨3⟩,
      .leave ⟨2⟩, .leave ⟨1⟩, .enter ⟨4⟩, .enter ⟨5⟩, .leave ⟨5⟩, .enter ⟨6⟩] r ∧ Tree.lastState r = 2) ∧
    ∃ calls, u.walk ⟨4⟩ callCounter.recording ([], 0) = (calls, 16) ∧ ProperlyNested calls := by
  obtain ⟨t, parsed, test⟩ := exists_ok_of_test
    (parse "const a = 1;\nfunction f(b) \x7b c; \x7d\nd;" .javascript)
    (fun t =>
      let u := t.editAll [.declareNull ⟨4⟩ "e"]
      u.size == 14 && u.walk ⟨4⟩ callCounter 0 == 16 && u.walk Tree.root thirdNameVisitor.recording ([], 0) ==
        ([.enter ⟨0⟩, .enter ⟨1⟩, .enter ⟨2⟩, .enter ⟨3⟩, .leave ⟨3⟩, .leave ⟨2⟩, .leave ⟨1⟩, .enter ⟨4⟩, .enter ⟨5⟩,
          .leave ⟨5⟩, .enter ⟨6⟩], 2)) (by decide +kernel)
  simp only [Bool.and_eq_true, beq_iff_eq] at test
  obtain ⟨⟨size, sixteen⟩, walked⟩ := test
  have root : Tree.root.index < (t.editAll [.declareNull ⟨4⟩ "e"]).size := size ▸ by decide
  have function : (⟨4⟩ : NodeId).index < (t.editAll [.declareNull ⟨4⟩ "e"]).size := size ▸ by decide
  obtain ⟨-, told, -⟩ := walk_is_traversal parsed [.declareNull ⟨4⟩ "e"] thirdNameVisitor root 0
  obtain ⟨-, -, calls, counted, nested⟩ := walk_is_traversal parsed [.declareNull ⟨4⟩ "e"] callCounter function 0
  exact ⟨t, parsed, (told _ _).mpr walked, calls, sixteen ▸ counted, (nested fun _ _ _ => rfl).1⟩

end BindingRepair.Script
