/-
# Functions and classes come to an end

Binding patterns, blocks, functions and classes. Each part of a list reads something.
-/

import BindingRepair.Proofs.Termination.Types

set_option synthInstance.maxSize 20000
set_option synthInstance.maxHeartbeats 100000

namespace BindingRepair.Script.Grammar

variable {k need : Nat} {rules : Rules}

/-! ### Patterns -/

instance (closing : String) {item : Parser Unit} [Halts k 16 item] [Strides k 16 always item] [Fails k 16 item] :
    Halts k 16 (commaSeparated closing item) := by
  unfold commaSeparated
  infer_instance

section Patterns

variable [Provides k rules]

instance : Halts k need (defaultValue rules) := by
  unfold defaultValue
  infer_instance

section Kind

variable (kind : BindingKind)

instance : Consumes k need (arrayPattern rules kind) := by
  unfold arrayPattern
  constructor
  all_goals infer_instance

instance : Serves k need (propertyPattern rules kind) := by
  unfold propertyPattern
  constructor
  all_goals infer_instance

instance : Consumes k need (objectPattern rules kind) := by
  unfold objectPattern
  constructor
  all_goals infer_instance

instance : Serves k need (bindingTarget rules kind) := by
  unfold bindingTarget
  constructor
  all_goals infer_instance

end Kind

/-! ### Blocks -/

instance : Halts k 16 (statements rules) := by
  unfold statements
  infer_instance

instance : Serves k need (block rules) := by
  unfold block
  constructor
  all_goals infer_instance

/-! ### Functions -/

instance : Halts k 16 (parameter rules) := by
  unfold parameter
  infer_instance

instance : Strides k 16 id (parameter rules) := by
  unfold parameter
  infer_instance

instance : Stops k id (parameter rules) := by
  unfold parameter
  infer_instance

instance : Serves k need (parameters rules) := by
  unfold parameters
  constructor
  all_goals infer_instance

instance (scope : ScopeId) : Serves k need (functionBody rules scope) := by
  unfold functionBody
  constructor
  all_goals infer_instance

instance (generator : Bool) : Serves k need (functionRest rules generator) := by
  unfold functionRest
  constructor
  all_goals infer_instance

instance (isAsync : Bool) : Serves k need (functionHead isAsync) := by
  unfold functionHead
  constructor
  all_goals infer_instance

instance (isAsync nameless : Bool) : Serves k need (functionDeclaration rules isAsync nameless) := by
  unfold functionDeclaration
  constructor
  all_goals infer_instance

instance (isAsync : Bool) : Serves k need (functionExpression rules isAsync) := by
  unfold functionExpression
  constructor
  all_goals infer_instance

instance (generator : Bool) : Serves k need (method rules generator) := by
  unfold method
  constructor
  all_goals infer_instance

instance : Serves k need (arrowParameters rules) := by
  unfold arrowParameters
  constructor
  all_goals infer_instance

instance (scope : ScopeId) (noIn : Bool) : Serves k need (arrowRest rules scope noIn) := by
  unfold arrowRest
  constructor
  all_goals infer_instance

instance (isAsync noIn : Bool) : Serves k need (arrowFunction rules isAsync noIn) := by
  unfold arrowFunction
  constructor
  all_goals infer_instance

/-! ### Classes -/

/-- One modifier before a class member. -/
def memberModifier : Parser (Sum Unit Bool) := do
  let t ← currentToken
  unless t.isWord && isClassModifier t.text do return .inr false
  let next ← peek
  if t.text == "static" && next.isPunctuator "\x7b" then
    bump
    return .inr true
  unless startsPropertyName next || next.isPunctuator "*" do return .inr false
  bump
  return .inl ()

theorem memberModifiers_eq : memberModifiers = loop () fun _ => memberModifier :=
  rfl

instance : Halts k need memberModifier := by
  unfold memberModifier
  infer_instance

instance : Strides k need Sum.isLeft memberModifier := by
  unfold memberModifier
  infer_instance

theorem memberModifier_of_atEnd {c : Context} {s : State} (ends : s.AtEnd) :
    memberModifier c s = .ok (.inr false) s := by
  simp [memberModifier, bind_apply, ends.isNone.isWord]

instance : Stops k Sum.isLeft memberModifier where
  stops _ _ _ _ _ _ _ _ ends result := by
    rw [memberModifier_of_atEnd ends] at result
    cases result
    rfl

instance : Halts k need memberModifiers := by
  rw [memberModifiers_eq]
  infer_instance

instance : Denies memberModifiers where
  denies _ _ bound ends := loop_done bound (memberModifier_of_atEnd ends)

instance : Serves k need (staticBlock rules) := by
  unfold staticBlock
  constructor
  all_goals infer_instance

instance : Serves k need (classMemberRest rules) := by
  unfold classMemberRest
  constructor
  all_goals infer_instance

instance : Serves k need (classMember rules) := by
  unfold classMember
  constructor
  all_goals infer_instance

instance : Serves k need (classBody rules) := by
  unfold classBody
  constructor
  all_goals infer_instance

instance : Serves k need (classRest rules) := by
  unfold classRest
  constructor
  all_goals infer_instance

instance (declared nameless : Bool) : Serves k need (classNode rules declared nameless) := by
  unfold classNode
  constructor
  all_goals infer_instance

end Patterns

end BindingRepair.Script.Grammar
