/-
# Expressions come to an end

Elements, operands and operators. The constructs that an expression may begin with have the room that is
left for them before anything is read.
-/

import BindingRepair.Proofs.Termination.Functions

set_option synthInstance.maxSize 20000
set_option synthInstance.maxHeartbeats 100000

namespace BindingRepair.Script.Grammar

variable {k need : Nat} {rules : Rules}

/-! ### Elements -/

instance : Halts k need elementNamePart := by
  unfold elementNamePart
  infer_instance

instance : Fails k need elementNamePart := by
  unfold elementNamePart
  apply fails_token
  intro t none
  rw [none.kind_identifier]
  infer_instance

instance : Serves k need skipNamePart := by
  unfold skipNamePart
  constructor
  all_goals infer_instance

instance (opening : Bool) : Serves k need (elementName opening) := by
  unfold elementName
  constructor
  all_goals infer_instance

instance : Serves k need closingTag := by
  unfold closingTag
  constructor
  all_goals infer_instance

section Provides

variable [Provides k rules]

instance : Halts k 16 (attributeValue rules) := by
  unfold attributeValue
  infer_instance

instance : Halts k 16 (attributes rules) := by
  unfold attributes
  infer_instance

instance : Serves k 16 (childExpression rules) := by
  unfold childExpression
  constructor
  all_goals infer_instance

/-- One child of an element, or the closing tag. -/
def child (rules : Rules) : Parser Bool := do
  let child ← currentToken
  match child.kind with
  | .endOfText => expected "closing tag"
  | .jsxText =>
    toChildBehind
    return true
  | _ =>
    if child.text == "\x7b" then
      childExpression rules
      toChildBehind
      return true
    if child.following.isPunctuator "/" then
      closingTag
      return false
    rules .element
    toChild
    return true

theorem children_eq : children rules = repeatWhile (child rules) :=
  rfl

instance : Halts k 16 (child rules) := by
  unfold child
  apply Halts.bind_still inferInstance
  intro t
  split
  all_goals infer_instance

instance : Strides k 16 id (child rules) := by
  unfold child
  apply Strides.bind_still inferInstance
  intro t
  split
  all_goals infer_instance

instance : Fails k 16 (child rules) := by
  unfold child
  apply fails_token
  intro t none
  rcases none with kind | kind
  · rw [kind]
    infer_instance
  · rw [kind]
    infer_instance

instance : Halts k 16 (children rules) := by
  rw [children_eq]
  infer_instance

instance : Halts k 16 (childrenOfTag rules) := by
  unfold childrenOfTag
  infer_instance

instance : Serves k need (element rules) := by
  unfold element
  constructor
  all_goals infer_instance

/-! ### Primary expressions -/

instance : Serves k need (arguments rules) := by
  unfold arguments
  constructor
  all_goals infer_instance

/-- A piece of a template literal behind an expression, which is read. Answers whether another expression
follows. -/
def templatePiece : Parser Bool := do
  match ← currentKind with
  | .template .middle =>
    bump
    return true
  | .template .tail =>
    bump
    return false
  | _ => unexpected

/-- An expression of a template literal and the piece behind it. -/
def templateStep (rules : Rules) : Parser Bool := do
  anyExpression rules
  unless ← isAt "\x7d" do expected "\x7d"
  reread Token.asTemplateContinuation
  templatePiece

theorem templateRest_eq : templateRest rules = repeatWhile (templateStep rules) :=
  rfl

instance : Halts k need templatePiece := by
  unfold templatePiece
  apply Halts.bind_still inferInstance
  intro kind
  split
  all_goals infer_instance

instance : Serves k 16 (templateStep rules) := by
  unfold templateStep
  constructor
  all_goals infer_instance

instance : Halts k 16 (templateRest rules) := by
  rw [templateRest_eq]
  infer_instance

instance : Serves k need (template rules) := by
  unfold template
  constructor
  · apply Halts.bind_still inferInstance
    intro kind
    split
    all_goals infer_instance
  · apply Strides.bind_still inferInstance
    intro kind
    split
    all_goals infer_instance
  · apply fails_kind
    all_goals infer_instance

instance : Serves k need (arrayLiteral rules) := by
  unfold arrayLiteral
  constructor
  all_goals infer_instance

instance : Halts k need accessorWord := by
  unfold accessorWord
  infer_instance

instance : Settles accessorWord := by
  unfold accessorWord
  apply settles_token
  intro t none
  rw [none.isWord]
  infer_instance

/-- A member of an object literal from its key on. -/
def keyedMember (rules : Rules) (generator : Bool) : Parser Unit := do
  let key ← currentToken
  if key.kind == .identifier && !generator then
    bump
    if (← isAt "(") || (← isAt "<") then method rules false
    else if ← eat ":" then operand rules
    else
      refer key
      if ← eat "=" then operand rules
  else
    propertyKey rules
    if (← isAt "(") || (← isAt "<") then method rules generator
    else
      expect ":"
      operand rules

theorem objectMember_eq : objectMember rules = (do
    accessorWord
    let generator ← eat "*"
    keyedMember rules generator) :=
  rfl

instance (generator : Bool) : Serves k need (keyedMember rules generator) := by
  unfold keyedMember
  constructor
  · infer_instance
  · infer_instance
  · apply fails_token
    intro t none
    rw [none.kind_identifier]
    infer_instance

instance : Serves k need (objectMember rules) := by
  rw [objectMember_eq]
  constructor
  all_goals infer_instance

instance : Serves k need (objectLiteral rules) := by
  unfold objectLiteral
  constructor
  all_goals infer_instance

instance : Serves k need (importExpression rules) := by
  unfold importExpression
  constructor
  all_goals infer_instance

instance (t : Token) : Consumes k need (primaryWord rules t) := by
  unfold primaryWord
  constructor
  all_goals infer_instance

section Primary

variable [Serves k need (rules .element)]

instance (t : Token) : Consumes k need (primaryMark rules t) := by
  unfold primaryMark
  dsimp only
  split
  all_goals
    constructor
    all_goals infer_instance

instance : Serves k need (primary rules) := by
  unfold primary
  constructor
  · apply Halts.bind_still inferInstance
    intro t
    split
    all_goals infer_instance
  · apply Strides.bind_still inferInstance
    intro t
    split
    all_goals infer_instance
  · apply fails_token
    intro t none
    rcases none with kind | kind
    · rw [kind]
      infer_instance
    · rw [kind]
      infer_instance

end Primary

/-! ### Accesses and calls -/

instance : Halts k need (eatIndex rules) := by
  unfold eatIndex
  infer_instance

instance : Strides k need id (eatIndex rules) := by
  unfold eatIndex
  infer_instance

instance : Denies (eatIndex rules) := by
  unfold eatIndex
  infer_instance

instance : Halts k need (optionalAccess rules) := by
  unfold optionalAccess
  infer_instance

instance : Halts k need (access rules) := by
  unfold access
  infer_instance

instance : Strides k need id (access rules) := by
  unfold access
  infer_instance

instance : Denies (access rules) where
  denies c s bound ends := by
    have none := ends.isNone
    have index := Denies.denies (p := eatIndex rules) c s bound ends
    have types := Denies.denies (p := typeArguments) c s bound ends
    simp [access, bind_apply, eat_apply, none.isPunctuator, none.isTemplateStart, index, types]

instance [Serves k need (rules .element)] : Serves k need (callee rules) := by
  unfold callee
  constructor
  all_goals infer_instance

instance : Halts k need (constructorAccess rules) := by
  unfold constructorAccess
  infer_instance

instance : Strides k need id (constructorAccess rules) := by
  unfold constructorAccess
  infer_instance

instance : Denies (constructorAccess rules) where
  denies c s bound ends := by
    have none := ends.isNone
    have index := Denies.denies (p := eatIndex rules) c s bound ends
    have types := Denies.denies (p := typeArguments) c s bound ends
    simp [constructorAccess, bind_apply, eat_apply, none.isPunctuator, none.isTemplateStart, index, types]

instance [Serves k need (rules .element)] : Serves k need (construction rules) := by
  unfold construction
  constructor
  all_goals infer_instance

/-! ### Operators -/

instance : Still isAtUnaryOperator := by
  unfold isAtUnaryOperator
  apply Still.bind inferInstance
  intro t
  split
  all_goals infer_instance

instance : Denies isAtUnaryOperator := by
  unfold isAtUnaryOperator
  apply denies_token
  intro t none
  rcases none with kind | kind
  · rw [kind]
    infer_instance
  · rw [kind]
    infer_instance

instance [Serves k need (rules .callee)] : Serves k need (updated rules) := by
  unfold updated
  constructor
  all_goals infer_instance

instance [Serves k need (rules .callee)] : Serves k need (unary rules) := by
  unfold unary
  constructor
  all_goals infer_instance

instance : Halts k 16 (castType rules) := by
  unfold castType
  infer_instance

/-- A binary operator that binds tighter than a precedence, and its right operand. -/
def operation (rules : Rules) (precedence : Nat) (noIn : Bool) (operator : String) : Parser Bool :=
  match binaryPrecedence? operator with
  | none => return false
  | some p => do
    if p ≤ precedence then return false
    bump
    let _ ← rules (.binary (if operator == "**" then p - 1 else p) noIn)
    return true

theorem binaryStep_eq (precedence : Nat) (noIn : Bool) : binaryStep rules precedence noIn = (do
    let t ← currentToken
    unless t.kind == .punctuator || t.isWord do return false
    if t.isWord then
      if (← isTypescript) && ["as", "satisfies"].contains t.text && !t.newlineBefore then
        if relationalPrecedence ≤ precedence then return false
        bump
        castType rules
        return true
      if t.text == "in" && noIn then return false
    operation rules precedence noIn t.text) :=
  rfl

section Precedence

variable (precedence : Nat) (noIn : Bool)

instance (operator : String) : Halts k need (operation rules precedence noIn operator) := by
  unfold operation
  split
  all_goals infer_instance

instance (operator : String) : Strides k need id (operation rules precedence noIn operator) := by
  unfold operation
  split
  all_goals infer_instance

instance : Halts k need (binaryStep rules precedence noIn) := by
  rw [binaryStep_eq]
  infer_instance

instance : Strides k need id (binaryStep rules precedence noIn) := by
  rw [binaryStep_eq]
  infer_instance

instance : Denies (binaryStep rules precedence noIn) := by
  rw [binaryStep_eq]
  apply denies_token
  intro t none
  rw [none.kind_punctuator, none.isWord, Bool.false_or]
  infer_instance

instance [Serves k need (rules .unary)] : Serves k need (binary rules precedence noIn) := by
  unfold binary
  constructor
  all_goals infer_instance

end Precedence

section Assignment

variable (noIn : Bool)

instance : Consumes k need (yieldExpression rules noIn) := by
  unfold yieldExpression
  constructor
  all_goals infer_instance

instance [Serves k need (rules (.binary 0 noIn))] : Serves k need (conditional rules noIn) := by
  unfold conditional
  constructor
  all_goals infer_instance

instance [Serves k need (rules (.binary 0 noIn))] : Serves k need (assignment rules noIn) := by
  unfold assignment
  constructor
  · apply Halts.bind_still inferInstance
    intro s
    apply Halts.bind_still inferInstance
    intro yields
    split
    · infer_instance
    · apply Halts.bind inferInstance
      all_goals
        intro found
        cases found
      all_goals infer_instance
  · apply Strides.bind_still inferInstance
    intro s
    apply Strides.bind_still inferInstance
    intro yields
    split
    · infer_instance
    · apply Strides.bind inferInstance
      all_goals
        intro found
        cases found
      all_goals infer_instance
  · infer_instance

end Assignment

end Provides

end BindingRepair.Script.Grammar
