/-
# Types come to an end

The parsers for the rules are given, with room for the rules that rank below a bound. Lists of expressions
and types come to an end, and so do groups in brackets, which are also read on trial.
-/

import BindingRepair.Proofs.Grammar.Constructs
import BindingRepair.Proofs.Termination.Searches

set_option synthInstance.maxSize 20000
set_option synthInstance.maxHeartbeats 100000

namespace BindingRepair.Script.Grammar

open Text

variable {α β : Type} {origin : Cursor} {k need : Nat} {rules : Rules} {c : Context} {s t : State}

/-! ### Rules -/

/-- With room for the rules of a rank there is a parser for each of them. -/
class Provides (k : Nat) (rules : Rules) : Prop where
  serves : ∀ (r : Rule) (need : Nat), r.rank < need → need ≤ 16 → Serves k need (rules r)

theorem Rule.rank_lt (r : Rule) : r.rank < 16 := by
  cases r with
  | _ => exact Nat.lt_of_sub_ne_zero nofun

section Provides

variable [provides : Provides k rules]

theorem Provides.all (r : Rule) : Serves k 16 (rules r) :=
  provides.serves r 16 r.rank_lt (Nat.le_refl _)

instance : Serves k 16 (rules .item) :=
  provides.all _

instance : Serves k 16 (rules .bareItem) :=
  provides.all _

instance : Serves k 6 (rules .bareItem) :=
  provides.serves _ 6 (Nat.lt_succ_self _) (by decide)

instance (noIn : Bool) : Serves k 16 (rules (.assignment noIn)) :=
  provides.all _

instance (noIn : Bool) : Serves k 5 (rules (.assignment noIn)) :=
  provides.serves _ 5 (Nat.lt_succ_self _) (by decide)

instance (precedence : Nat) (noIn : Bool) : Serves k 16 (rules (.binary precedence noIn)) :=
  provides.all _

instance (precedence : Nat) (noIn : Bool) : Serves k 4 (rules (.binary precedence noIn)) :=
  provides.serves _ 4 (Nat.lt_succ_self _) (by decide)

instance : Serves k 16 (rules .unary) :=
  provides.all _

instance : Serves k 3 (rules .unary) :=
  provides.serves _ 3 (Nat.lt_succ_self _) (by decide)

instance : Serves k 16 (rules .callee) :=
  provides.all _

instance : Serves k 2 (rules .callee) :=
  provides.serves _ 2 (Nat.lt_succ_self _) (by decide)

instance : Serves k 16 (rules .construction) :=
  provides.all _

instance (kind : BindingKind) : Serves k 16 (rules (.target kind)) :=
  provides.all _

instance : Serves k 16 (rules .element) :=
  provides.all _

instance : Serves k 1 (rules .element) :=
  provides.serves _ 1 (Nat.lt_succ_self _) (by decide)

instance : Serves k 16 (rules .type) :=
  provides.all _

instance : Serves k 16 (rules .typeOperand) :=
  provides.all _

instance : Serves k 1 (rules .typeOperand) :=
  provides.serves _ 1 (Nat.lt_succ_self _) (by decide)

/-! ### Lists of expressions -/

instance {noIn : Bool} [Serves k need (rules (.assignment noIn))] : Serves k need (expression rules noIn) := by
  unfold expression
  constructor
  all_goals infer_instance

section Operands

variable [Serves k need (rules (.assignment false))]

instance : Serves k need (operand rules) := by
  unfold operand
  constructor
  all_goals infer_instance

instance : Serves k need (anyExpression rules) := by
  unfold anyExpression
  constructor
  all_goals infer_instance

instance : Halts k need (initializer rules) := by
  unfold initializer
  infer_instance

end Operands

instance : Serves k need (propertyKey rules) := by
  unfold propertyKey
  constructor
  · apply Halts.bind_still inferInstance
    intro kind
    split
    all_goals infer_instance
  · apply Strides.bind_still inferInstance
    intro kind
    split
    all_goals infer_instance
  · apply fails_kind
    all_goals infer_instance

end Provides

instance : Halts k need propertyName := by
  unfold propertyName
  apply Halts.bind_still inferInstance
  intro kind
  split
  all_goals infer_instance

/-! ### Groups in brackets -/

instance (typesOnly : Bool) (stack : List Bracket) : Halts k need (groupStep typesOnly stack) := by
  unfold groupStep
  apply Halts.bind_still inferInstance
  intro t
  dsimp only
  repeat' first
    | infer_instance
    | split
    | refine Halts.bind inferInstance (fun _ => ?_) fun _ => ?_

instance (typesOnly : Bool) (stack : List Bracket) : Fails k need (groupStep typesOnly stack) := by
  unfold groupStep
  apply fails_token
  intro t none
  rcases none with kind | kind
  · rw [kind]
    infer_instance
  · rw [kind]
    infer_instance

instance (typesOnly : Bool) : Serves k need (balanced typesOnly) := by
  unfold balanced
  constructor
  all_goals infer_instance

instance : Halts k need optionalAngles := by
  unfold optionalAngles
  infer_instance

instance : Settles optionalAngles := by
  unfold optionalAngles
  infer_instance

instance : Halts k need typedAngles := by
  unfold typedAngles
  infer_instance

instance : Settles typedAngles := by
  unfold typedAngles
  infer_instance

/-! ### Reading on trial -/

/-- The depth stays as it is, also where the parser fails. -/
def keepingDepth : Effect where
  ok s t := t.depth = s.depth
  error s t := t.depth = s.depth
  refl _ := rfl
  trans first second := second.trans first
  fails _ := rfl
  then_fails first second := second.trans first

instance (again : Token → Token) : Acts keepingDepth (reread again) :=
  ⟨fun _ _ => rfl⟩

instance : Acts keepingDepth bump := by
  refine ⟨fun c s => ?_⟩
  rw [bump_apply]
  exact s.depth_bumped

instance (typesOnly : Bool) : Acts keepingDepth (balanced typesOnly) := by
  have step (stack : List Bracket) : Acts keepingDepth (groupStep typesOnly stack) :=
    Acts.groupStep (fun _ => inferInstance) typesOnly stack
  unfold balanced
  infer_instance

section Attempt

variable {body : Parser Unit} {accept : Parser Bool}

/-- The state at the place of another one, after a trial that has failed. -/
def State.backTo (s after : State) : State :=
  { after with token := s.token, previousEnd := s.previousEnd }

theorem stays_backTo (same : s.SameTree t) (depth : t.depth = s.depth) : Stays s (s.backTo t) :=
  .of_sameTree ⟨same.nodes, same.scopes, same.references, same.opened, same.scope⟩ rfl rfl depth

theorem attempt_of_error {e : Failure} (result : body c s = .error e t) (other : e.cause ≠ .exhausted) :
    attempt body accept c s = .ok false (s.backTo t) := by
  unfold attempt
  dsimp only
  rw [result]
  exact if_neg other

theorem attempt_of_ok [still : Still accept] [looks : Looks accept] (result : body c s = .ok () t) :
    attempt body accept c s = .ok true t ∨ attempt body accept c s = .ok false (s.backTo t) := by
  have ⟨accepted, u, result', _⟩ := still.stays c t
  have same := looks.acts c t
  rw [result'] at same
  obtain rfl : u = t := same
  unfold attempt
  dsimp only
  rw [result]
  dsimp only
  rw [result']
  cases accepted with
  | true => exact .inl rfl
  | false => exact .inr rfl

variable [halts : Halts k need body] [lexical : Lexical body] [level : Acts keepingDepth body] [Still accept]
  [Looks accept]

instance : Halts k need (attempt body accept) where
  ends origin c s valid bound room := by
    have ends := halts.ends origin c s valid bound room
    have same := lexical.acts c s
    have depth := level.acts c s
    cases result : body c s with
    | error e t =>
        rw [result] at ends same depth
        have stays := stays_backTo same depth
        rw [attempt_of_error result ends.cause]
        exact ⟨stays.valid valid, stays.advances⟩
    | ok a t =>
        rw [result] at ends same depth
        have stays := stays_backTo same.1 depth
        have accepted : _ ∨ attempt body accept c s = _ := attempt_of_ok result
        rcases accepted with tried | tried
        · rw [tried]
          exact ends
        · rw [tried]
          exact ⟨stays.valid valid, stays.advances⟩

instance [strides : Strides k need always body] : Strides k need id (attempt body accept) where
  passes origin c s u accepted valid bound room left result is := by
    have ends := halts.ends origin c s valid bound room
    cases tried : body c s with
    | error e t =>
        rw [tried] at ends
        rw [attempt_of_error tried ends.cause] at result
        cases result
        cases is
    | ok a t =>
        have passes := strides.passes origin c s t a valid bound room left tried rfl
        have accepted : _ ∨ attempt body accept c s = _ := attempt_of_ok tried
        rcases accepted with result' | result'
        · rw [result'] at result
          cases result
          exact passes
        · rw [result'] at result
          cases result
          cases is

end Attempt

instance : Halts k need typeArguments := by
  unfold typeArguments
  infer_instance

instance : Strides k need id typeArguments := by
  unfold typeArguments
  infer_instance

instance : Denies typeArguments := by
  unfold typeArguments
  infer_instance

/-! ### Types -/

instance : Halts k need closingAngle := by
  unfold closingAngle
  infer_instance

/-- A name behind a point, where another may follow. -/
def furtherName : Parser Bool := do
  match ← currentKind with
  | .identifier | .privateName => bump
  | _ => expected "name"
  return true

theorem entityName_eq : entityName = (do
    unless (← currentKind) == .identifier do expected "name"
    bump
    repeatWhile do
      unless ← eat "." do return false
      furtherName) :=
  rfl

instance : Halts k need furtherName := by
  unfold furtherName
  apply Halts.bind_still inferInstance
  intro kind
  split
  all_goals infer_instance

instance : Consumes k need entityName := by
  rw [entityName_eq]
  constructor
  all_goals infer_instance

instance : Halts k need typeSuffixes := by
  unfold typeSuffixes
  infer_instance

section Provides

variable [Provides k rules]

instance : Halts k need ( typeAnnotation rules) := by
  unfold typeAnnotation
  infer_instance

instance : Consumes k need (functionType rules) := by
  unfold functionType
  constructor
  all_goals infer_instance

instance : Halts k 16 (typeList rules) := by
  unfold typeList
  infer_instance

instance [Serves k need (rules .typeOperand)] : Serves k need (typeExpression rules) := by
  unfold typeExpression
  constructor
  all_goals infer_instance

instance : Halts k 16 (namedTypeRest rules) := by
  unfold namedTypeRest
  infer_instance

instance (t : Token) : Consumes k need (typeFromWord rules t) := by
  unfold typeFromWord
  constructor
  all_goals infer_instance

instance : Serves k need (typeOperand rules) := by
  unfold typeOperand
  constructor
  · apply Halts.bind_still inferInstance
    intro t
    split
    all_goals try infer_instance
    split
    all_goals infer_instance
  · apply Strides.bind_still inferInstance
    intro t
    split
    all_goals try infer_instance
    split
    all_goals infer_instance
  · apply fails_token
    intro t none
    rcases none with kind | kind
    · rw [kind]
      infer_instance
    · rw [kind]
      infer_instance

/-! ### Decorators and modifiers -/

/-- One decorator, behind which another may follow. -/
def decorator (rules : Rules) : Parser Bool := do
  unless ← eat "@" do return false
  let _ ← rules .callee
  return true

theorem decorators_eq : decorators rules = repeatWhile (decorator rules) :=
  rfl

instance : Halts k need (decorator rules) := by
  unfold decorator
  infer_instance

instance : Strides k need id (decorator rules) := by
  unfold decorator
  infer_instance

instance : Denies (decorator rules) := by
  unfold decorator
  infer_instance

instance : Halts k need (decorators rules) := by
  rw [decorators_eq]
  infer_instance

/-- At an at sign there is a decorator to read. -/
theorem passes_decorators (sign : s.token.isPunctuator "@" = true) (valid : s.Valid origin)
    (bound : s.left + 2 ≤ c.bound) (room : Room k need s) (left : ¬ s.AtEnd) (result : decorators rules c s = .ok () t) :
    s.previousEnd.Passes t.previousEnd := by
  rw [decorators_eq, repeatWhile] at result
  refine passes_loop ?_ ?_ ?_ ?_ valid bound room ?_ result
  · infer_instance
  · infer_instance
  · infer_instance
  · infer_instance
  · intro r u round
    obtain ⟨more, v, one, rest⟩ := bind_eq_ok round
    have eaten : eat "@" c s = .ok true s.bumped := by rw [eat_apply, if_pos sign]
    have read := valid.passes_bumped left
    rw [decorator, bind_ok eaten] at one
    have callee : Halts k 16 (rules .callee >>= fun _ => pure true) := inferInstance
    have further := callee.ok valid.bumped (valid.advances_bumped.bound bound) (room.of_passes read) one
    rw [(isLeft_goOn rest).1]
    exact read.trans_reaches further.2.previousEnd

section AtSign

variable {f : Unit → Parser β} {q : Parser β}

/-- At an at sign the decorators are read, so that behind them all rules may be called. -/
instance [further : ∀ a, Halts k 16 (f a)] [no : Halts k need q] :
    Halts k need (isAt "@" >>= fun sign => if sign = true then decorators rules >>= f else q) where
  ends origin c s valid bound room := by
    rw [bind_ok (isAt_apply "@")]
    by_cases sign : s.token.isPunctuator "@" = true
    · rw [if_pos sign]
      have read : Halts k need (decorators rules) := inferInstance
      apply Ends.bind (read.ends origin c s valid bound room)
      intro a t result valid' advances
      have left : ¬ s.AtEnd := fun ends => by
        rw [ends.isNone.isPunctuator] at sign
        cases sign
      have passes := passes_decorators sign valid bound room left result
      exact (further a).ends origin c t valid' (advances.bound bound) (room.of_passes passes)
    · rw [if_neg sign]
      exact no.ends origin c s valid bound room

instance {good : β → Bool} [further : ∀ a, Halts k 16 (f a)] [no : Strides k need good q] :
    Strides k need good (isAt "@" >>= fun sign => if sign = true then decorators rules >>= f else q) where
  passes origin c s u b valid bound room left result is := by
    rw [bind_ok (isAt_apply "@")] at result
    by_cases sign : s.token.isPunctuator "@" = true
    · rw [if_pos sign] at result
      have ⟨a, t, result', result''⟩ := bind_eq_ok result
      have passes := passes_decorators sign valid bound room left result'
      have read : Halts k need (decorators rules) := inferInstance
      have ⟨valid', advances⟩ := read.ok valid bound room result'
      have further := (further a).ok valid' (advances.bound bound) (room.of_passes passes) result''
      exact passes.trans_reaches further.2.previousEnd
    · rw [if_neg sign] at result
      exact no.passes origin c s u b valid bound room left result is

end AtSign

end Provides

/-- One word before a constructor parameter, behind which another may follow. -/
def parameterModifier : Parser Bool := do
  let t ← currentToken
  unless t.isWord &&
      ["public", "private", "protected", "readonly", "override"].contains t.text do
    return false
  let next ← peek
  unless next.kind == .identifier || next.isPunctuator "\x7b" || next.isPunctuator "[" do
    return false
  bump
  return true

theorem parameterModifiers_eq : parameterModifiers = repeatWhile parameterModifier :=
  rfl

instance : Halts k need parameterModifier := by
  unfold parameterModifier
  infer_instance

instance : Strides k need id parameterModifier := by
  unfold parameterModifier
  infer_instance

instance : Denies parameterModifier := by
  unfold parameterModifier
  apply denies_token
  intro t none
  rw [none.isWord, Bool.false_and]
  infer_instance

instance : Halts k need parameterModifiers := by
  rw [parameterModifiers_eq]
  infer_instance

instance : Settles parameterModifiers := by
  rw [parameterModifiers_eq]
  infer_instance

end BindingRepair.Script.Grammar
