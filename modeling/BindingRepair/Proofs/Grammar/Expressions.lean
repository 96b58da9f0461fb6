/-
# Expressions take steps

Every expression reads something, and where it is a function, that function has been added.
-/

import BindingRepair.Proofs.Grammar.Constructs

set_option synthInstance.maxSize 20000
set_option synthInstance.maxHeartbeats 100000

namespace BindingRepair.Script.Grammar

open Text

variable {α : Type} {origin : Cursor} {rules : Rules}

instance : Lexical accessorWord := by
  unfold accessorWord
  infer_instance

section Orderly

variable [Orderly rules]

/-! ### Primary expressions -/

instance : Eager (arguments rules) := by
  unfold arguments
  infer_instance

instance : Tame (templateRest rules) := by
  unfold templateRest
  refine Acts.repeatWhile ?_
  repeat' first
    | infer_instance
    | split
    | refine Acts.bind ?_ fun _ => ?_

instance : Eager (template rules) := by
  unfold template
  refine Eager.bind inferInstance fun kind => ?_
  split
  · infer_instance
  · infer_instance
  · infer_instance

instance : Eager (arrayLiteral rules) := by
  unfold arrayLiteral
  infer_instance

theorem runs_objectMember (s : State) : Runs origin s (objectMember rules) fun _ _ => True := by
  refine Runs.bind_tame fun _ t _ => Runs.bind_tame fun generator u _ => ?_
  refine Goes.bind_value (fun _ => rfl) (Runs.ite (fun identifier => ?_) fun _ => Tame.runs inferInstance u)
  have kind : u.token.kind = .identifier := beq_iff_eq.mp (Bool.and_eq_true_iff.mp identifier).1
  refine Runs.of_at fun nested _ at' => (runs_bump u).bind ?_
  rintro _ v - ⟨-, rfl⟩
  refine Runs.bind_looks fun _ => Runs.bind_looks fun _ => Runs.ite (fun _ => Tame.runs inferInstance _) fun _ => ?_
  refine (runs_eat u.bumped ":").bind fun colon w _ read => ?_
  refine Runs.ite (fun _ => Tame.runs inferInstance w) fun none => ?_
  rw [if_neg none] at read
  obtain rfl := read
  have takes := (at'.takes nested kind).of_same u.sameTree_bumped
  have behind : u.token.stop ≤ u.bumped.previousEnd.offset := by
    rw [u.previousEnd_bumped]
    exact Nat.le_refl _
  exact (runs_refer takes behind).bind fun _ x _ _ => Tame.runs inferInstance x

instance : Tame (objectMember rules) :=
  Tame.of_steps fun _ s => runs_objectMember s

instance : Eager (objectLiteral rules) := by
  unfold objectLiteral
  infer_instance

instance : Eager (importExpression rules) := by
  unfold importExpression
  infer_instance

/-- A name that begins no other expression refers to a binding. -/
theorem runs_primaryWord {s : State} (identifier : s.token.kind = .identifier) :
    Runs origin s (primaryWord rules s.token) fun shape t => Consumed s t ∧ shape.Known t := by
  have name : Runs origin s (do
      refer s.token
      bump
      return Shape.other) fun shape t => Consumed s t ∧ shape.Known t :=
    runs_refer_bump identifier fun t _ consumed => Runs.pure ⟨consumed, Shape.known_other t⟩
  have other (p : Parser Shape) [evaluates : Evaluates p] := evaluates.runs origin s
  refine Runs.ite (fun _ => Runs.ite (fun _ => other _) fun _ => Runs.ite (fun _ => ?_) fun _ => ?_) fun _ => name
  · refine Runs.bind_looks fun _ => Runs.ite (fun _ => other _) fun _ => Runs.ite (fun _ => other _) fun _ => ?_
    refine Runs.ite (fun _ => other _) fun _ => Runs.ite (fun _ => other _) fun _ => ?_
    exact Runs.ite (fun _ => Runs.unexpected_bind) fun _ => name
  · refine Runs.ite (fun _ => other _) fun _ => Runs.ite (fun _ => other _) fun _ => ?_
    exact Runs.ite (fun _ => other _) fun _ => Runs.ite (fun _ => Runs.unexpected_bind) fun _ => name

instance (t : Token) : Evaluates (primaryMark rules t) := by
  have inner : Evaluates (do
      let inner ← expression rules false
      expect ")"
      return inner) := by
    refine Evaluates.keep fun origin shape u known => ?_
    exact Runs.bind_tame fun _ v moves => Runs.pure (known.after moves.steps)
  unfold primaryMark
  dsimp only
  split
  · infer_instance
  · infer_instance
  · infer_instance
  · infer_instance
  · infer_instance
  · infer_instance
  · infer_instance
  · infer_instance

instance : Evaluates (primary rules) := by
  refine ⟨fun origin s => Goes.bind_value (fun _ => rfl) ?_⟩
  have other (p : Parser Shape) [evaluates : Evaluates p] := evaluates.runs origin s
  split
  · rename_i identifier
    exact runs_primaryWord identifier
  · exact other _
  · exact other _
  · exact other _
  · exact other _
  · exact other _
  · exact other _

/-! ### Accesses and calls -/

instance : Tame (eatIndex rules) := by
  unfold eatIndex
  infer_instance

instance : Tame (optionalAccess rules) := by
  unfold optionalAccess
  infer_instance

instance : Tame (access rules) := by
  unfold access
  infer_instance

instance : Evaluates (callee rules) := by
  have behind {p : Parser Shape} [Evaluates p] : Evaluates (p >>= fun init => loop init fun shape => do
      if ← access rules then return .inl .other else return .inr shape) :=
    Evaluates.loop
  unfold callee
  infer_instance

instance : Tame (constructorAccess rules) := by
  unfold constructorAccess
  infer_instance

instance : Evaluates (construction rules) := by
  unfold construction
  infer_instance

/-! ### Operators -/

instance : Evaluates (updated rules) := by
  refine Evaluates.keep fun origin shape t known => ?_
  refine Runs.bind_looks fun _ => Runs.bind_looks fun _ => Runs.bind_looks fun _ => Runs.ite (fun _ => ?_) ?_
  · exact Runs.bind_tame fun _ u _ => Runs.pure (Shape.known_other u)
  · exact fun _ => Runs.pure known

omit [Orderly rules] in
instance : Looks isAtUnaryOperator := by
  unfold isAtUnaryOperator
  refine Acts.bind inferInstance fun t => ?_
  split
  · infer_instance
  · infer_instance
  · infer_instance

instance : Evaluates (unary rules) := by
  unfold unary
  infer_instance

instance : Tame (castType rules) := by
  unfold castType
  infer_instance

instance (precedence : Nat) (noIn : Bool) : Tame (binaryStep rules precedence noIn) := by
  unfold binaryStep
  refine Acts.bind inferInstance fun t => ?_
  repeat' first
    | infer_instance
    | split

instance (precedence : Nat) (noIn : Bool) : Evaluates (binary rules precedence noIn) :=
  Evaluates.loop

instance (noIn : Bool) : Evaluates (conditional rules noIn) := by
  refine Evaluates.keep fun origin shape t known => Runs.bind_tame fun _ u moves => Runs.ite ?_ ?_
  · exact fun _ => Finds.runs origin u
  · exact fun _ => Runs.pure (known.after moves.steps)

instance (noIn : Bool) : Evaluates (yieldExpression rules noIn) := by
  unfold yieldExpression
  infer_instance

omit [Orderly rules] in
instance : Looks arrowAhead := by
  unfold arrowAhead
  infer_instance

instance (noIn : Bool) : Evaluates (assignment rules noIn) := by
  have plain : Evaluates (do
      let left ← conditional rules noIn
      let t ← currentToken
      if t.kind == .punctuator && isAssignmentOperator t.text then
        bump
        let _ ← rules (.assignment noIn)
        return .other
      return left) := by
    refine Evaluates.keep fun origin shape t known => Runs.bind_looks fun _ => Runs.ite ?_ ?_
    · exact fun _ => Finds.runs origin t
    · exact fun _ => Runs.pure known
  unfold assignment
  refine Evaluates.bind inferInstance fun s => Evaluates.bind inferInstance fun yields => ?_
  split
  · infer_instance
  · refine Evaluates.bind inferInstance fun arrow => ?_
    split
    · infer_instance
    · exact plain

end Orderly

end BindingRepair.Script.Grammar
