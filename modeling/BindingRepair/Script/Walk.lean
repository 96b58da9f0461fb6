/-
# Walking a tree

Visits the nodes below a node in source order. The visitor carries a state and decides at each node
whether to go on. The nodes still to come wait on a stack, so the depth of a tree does not matter.
-/

import BindingRepair.Script.Tree

namespace BindingRepair.Script

/-- What comes after entering a node. -/
inductive Visit
  /-- The children of the node, then leaving it. -/
  | descend
  /-- Leaving the node. -/
  | skip
  /-- Nothing at all. -/
  | stop
deriving DecidableEq, Repr

structure Visitor (σ : Type) where
  enter : NodeId → Node → σ → Visit × σ
  leave : NodeId → Node → σ → σ

/-- What is still to be done on a walk. -/
inductive WalkStep
  | enter (id : NodeId)
  | leave (id : NodeId)

namespace Tree

variable {σ : Type}

/-- Does the steps on a stack, at most `n` of them. -/
def walkSteps (t : Tree) (v : Visitor σ) : (n : Nat) → List WalkStep → σ → σ
  | 0, _, s => s
  | _ + 1, [], s => s
  | n + 1, .enter id :: steps, s =>
    match t.node? id with
    | none => walkSteps t v n steps s
    | some node =>
      match v.enter id node s with
      | (.stop, s) => s
      | (.skip, s) => walkSteps t v n steps (v.leave id node s)
      | (.descend, s) =>
        walkSteps t v n (node.children.toList.map .enter ++ .leave id :: steps) s
  | n + 1, .leave id :: steps, s =>
    match t.node? id with
    | none => walkSteps t v n steps s
    | some node => walkSteps t v n steps (v.leave id node s)

/-- Visits a node and all nodes below it. Each is entered and left at most once. -/
def walk (t : Tree) (start : NodeId) (v : Visitor σ) (s : σ) : σ :=
  t.walkSteps v (2 * t.size + 1) [.enter start] s

/-- Collects the bindings that begin at an offset. -/
def bindingCollector (offset : Nat) : Visitor (List NodeId) where
  enter id node found :=
    if offset < node.span.start && !node.span.isEmpty then (.skip, found)
    else
      match node.kind with
      | .identifier i =>
        if node.span.start == offset && !node.span.isEmpty && i.site?.isSome then
          (.descend, found ++ [id])
        else (.descend, found)
      | _ => (.descend, found)
  leave _ _ found := found

/-- The bindings that begin at an offset, in source order. -/
def bindingsAt (t : Tree) (offset : Nat) : List NodeId :=
  t.walk root (bindingCollector offset) []

end Tree

end BindingRepair.Script
