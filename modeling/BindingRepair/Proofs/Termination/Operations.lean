/-
# Operations come to an end

The operations on the state: failures, loops and levels of nesting, tokens, nodes and scopes. A loop comes
to an end because each of its rounds that is not the last one moves forward.
-/

import BindingRepair.Proofs.Termination.Parsers

set_option synthInstance.maxSize 20000
set_option synthInstance.maxHeartbeats 100000

namespace BindingRepair.Script.Grammar

open Text

variable {α β σ : Type} {origin : Cursor} {k need : Nat} {c : Context} {s t : State}

/-! ### Failures -/

/-- The parser fails at the current token, and not for want of steps. -/
class Rejects (p : Parser α) : Prop where
  rejects : ∀ (c : Context) (s : State),
    ∃ cause, cause ≠ .exhausted ∧ p c s = .error ⟨s.token.start, cause⟩ s

section Rejects

variable {p : Parser α} [rejects : Rejects p]

instance (priority := low) : Halts k need p where
  ends _ c s valid _ _ := by
    have ⟨_, other, result⟩ := rejects.rejects c s
    rw [result]
    exact valid.fails other

instance (priority := low) {good : α → Bool} : Strides k need good p where
  passes _ c s _ _ _ _ _ _ result _ := by
    have ⟨_, _, result'⟩ := rejects.rejects c s
    rw [result] at result'
    cases result'

instance (priority := low) : Fails k need p where
  fails _ c s valid _ _ _ := by
    have ⟨_, other, result⟩ := rejects.rejects c s
    exact ⟨_, s, result, valid.fails other⟩

instance {f : α → Parser β} : Rejects (p >>= f) where
  rejects c s := by
    have ⟨cause, other, result⟩ := rejects.rejects c s
    use cause, other
    rw [bind_apply, result]

end Rejects

instance : Rejects (unexpected : Parser α) where
  rejects _ s := ⟨.unexpected (describe s.token), nofun, rfl⟩

instance (what : String) : Rejects (expected what : Parser α) where
  rejects _ s := ⟨.expected what (describe s.token), nofun, rfl⟩

/-! ### Loops -/

section Loops

variable {step : σ → Parser (Sum σ α)}

/-- A loop with more steps than characters are left comes to an end. -/
theorem ends_loopUpTo (halts : ∀ a, Halts k 16 (step a)) (strides : ∀ a, Strides k 16 Sum.isLeft (step a))
    (stops : ∀ a, Stops k Sum.isLeft (step a)) (n : Nat) (a : σ) (valid : s.Valid origin)
    (bound : s.left + 2 ≤ c.bound) (room : Room k 16 s) (enough : s.left < n) :
    Ends origin s (loopUpTo step n a c s) := by
  induction n generalizing a s with
  | zero => exact absurd enough (Nat.not_lt_zero _)
  | succ n ih =>
      apply Ends.bind ((halts a).ends origin c s valid bound room)
      intro r t result valid' advances
      cases r with
      | inr x => exact ⟨valid', .refl t⟩
      | inl b =>
          have passes : s.previousEnd.Passes t.previousEnd := by
            by_cases ends : s.AtEnd
            · have calls : 16 ≤ k := Nat.le_trans (Nat.le_add_left ..) room.calls
              cases (stops a).stops origin c s t _ valid (by omega) calls ends result
            · exact (strides a).passes origin c s t _ valid bound room ends result rfl
          have shorter : t.left < s.left := passes.length_lt
          exact ih b valid' (advances.bound bound) (room.of_passes passes) (by omega)

theorem loop_apply {init : σ} : loop init step c s = loopUpTo step c.bound init c s :=
  rfl

theorem loopUpTo_succ (n : Nat) (a : σ) :
    loopUpTo step (n + 1) a = step a >>= Sum.elim (loopUpTo step n) pure := by
  rw [loopUpTo]
  congr
  ext r
  cases r with
  | inl next => rfl
  | inr result => rfl

/-- The first round of a loop may have less room than the others. -/
instance {init : σ} [first : Halts k need (step init)] [passes : Strides k need Sum.isLeft (step init)]
    [halts : ∀ a, Halts k 16 (step a)] [strides : ∀ a, Strides k 16 Sum.isLeft (step a)]
    [stops : ∀ a, Stops k Sum.isLeft (step a)] : Halts k need (loop init step) where
  ends origin c s valid bound room := by
    by_cases ends : s.AtEnd
    · have all := room.token ends
      subst all
      exact ends_loopUpTo halts strides stops c.bound init valid bound room (by omega)
    · have ⟨n, steps⟩ : ∃ n, c.bound = n + 1 := ⟨c.bound - 1, by omega⟩
      rw [loop_apply, steps, loopUpTo_succ]
      apply Ends.bind (first.ends origin c s valid bound room)
      intro r t result valid' advances
      cases r with
      | inr x => exact ⟨valid', .refl t⟩
      | inl b =>
          have passes := passes.passes origin c s t _ valid bound room ends result rfl
          have shorter : t.left < s.left := passes.length_lt
          exact ends_loopUpTo halts strides stops n b valid' (advances.bound bound)
            (room.of_passes passes) (by omega)

/-- A loop reads something if its first round does. -/
theorem passes_loop {init : σ} (first : Halts k need (step init)) (halts : ∀ a, Halts k 16 (step a))
    (strides : ∀ a, Strides k 16 Sum.isLeft (step a)) (stops : ∀ a, Stops k Sum.isLeft (step a))
    {b : α} (valid : s.Valid origin) (bound : s.left + 2 ≤ c.bound) (room : Room k need s)
    (passes : ∀ r u, step init c s = .ok r u → s.previousEnd.Passes u.previousEnd)
    (result : loop init step c s = .ok b t) : s.previousEnd.Passes t.previousEnd := by
  obtain ⟨n, steps⟩ : ∃ n, c.bound = n + 1 := ⟨c.bound - 1, by omega⟩
  rw [loop_apply, steps, loopUpTo_succ] at result
  obtain ⟨r, u, result', result''⟩ := bind_eq_ok result
  obtain ⟨valid', advances⟩ := first.ok valid bound room result'
  have read := passes r u result'
  cases r with
  | inr x =>
      cases result''
      exact read
  | inl a =>
      have shorter : u.left < s.left := read.length_lt
      have ends := ends_loopUpTo halts strides stops n a valid' (advances.bound bound)
        (room.of_passes read) (by omega)
      rw [Sum.elim_inl] at result''
      rw [result''] at ends
      exact read.trans_reaches ends.2.previousEnd

instance {init : σ} {good : α → Bool} [first : Halts k need (step init)]
    [passes : Strides k need always (step init)] [halts : ∀ a, Halts k 16 (step a)]
    [strides : ∀ a, Strides k 16 Sum.isLeft (step a)] [stops : ∀ a, Stops k Sum.isLeft (step a)] :
    Strides k need good (loop init step) where
  passes origin c s _ _ valid bound room left result _ :=
    passes_loop first halts strides stops valid bound room
      (fun r u result' => passes.passes origin c s u r valid bound room left result' rfl) result

instance {init : σ} [fails : Fails k need (step init)] : Fails k need (loop init step) where
  fails origin c s valid bound calls ends := by
    have ⟨e, t, result, failsAt⟩ := fails.fails origin c s valid bound calls ends
    have ⟨n, steps⟩ : ∃ n, c.bound = n + 1 := ⟨c.bound - 1, by omega⟩
    use e, t
    rw [loop_apply, steps, loopUpTo_succ, bind_apply, result]
    exact ⟨rfl, failsAt⟩

end Loops

section RepeatWhile

variable {step : Parser Bool}

/-- Whether a loop goes on. -/
def goOn (more : Bool) : Parser (Sum Unit Unit) :=
  if more then pure (.inl ()) else pure (.inr ())

theorem isLeft_goOn {more : Bool} {r : Sum Unit Unit} (result : goOn more c s = .ok r t) :
    t = s ∧ r.isLeft = more := by
  cases more with
  | true => cases result; exact ⟨rfl, rfl⟩
  | false => cases result; exact ⟨rfl, rfl⟩

instance (more : Bool) : Still (goOn more) := by
  unfold goOn
  infer_instance

instance [halts : Halts k need step] : Halts k need (step >>= goOn) where
  ends origin c s valid bound room := by
    apply Ends.bind (halts.ends origin c s valid bound room)
    intro more t _ valid' _
    cases more with
    | true => exact ⟨valid', .refl t⟩
    | false => exact ⟨valid', .refl t⟩

instance [strides : Strides k need id step] : Strides k need Sum.isLeft (step >>= goOn) where
  passes origin c s u r valid bound room left result is := by
    have ⟨more, t, result', result''⟩ := bind_eq_ok result
    have ⟨same, yes⟩ := isLeft_goOn result''
    rw [same]
    exact strides.passes origin c s t more valid bound room left result' (yes ▸ is)

instance [stops : Stops k id step] : Stops k Sum.isLeft (step >>= goOn) where
  stops origin c s u r valid bound calls ends result := by
    have ⟨more, t, result', result''⟩ := bind_eq_ok result
    rw [(isLeft_goOn result'').2]
    exact stops.stops origin c s t more valid bound calls ends result'

instance [Halts k need step] [Halts k 16 step] [Strides k need id step] [Strides k 16 id step]
    [Stops k id step] : Halts k need (repeatWhile step) :=
  inferInstanceAs (Halts k need (loop () fun _ => step >>= goOn))

instance {good : Unit → Bool} [Halts k need step] [Halts k 16 step] [Strides k need always step]
    [Strides k 16 id step] [Stops k id step] : Strides k need good (repeatWhile step) :=
  inferInstanceAs (Strides k need good (loop () fun _ => step >>= goOn))

instance [Fails k need step] : Fails k need (repeatWhile step) :=
  inferInstanceAs (Fails k need (loop () fun _ => step >>= goOn))

/-- A loop whose first round ends it. -/
instance [denies : Denies step] : Settles (repeatWhile step) where
  settles _ c s valid bound ends :=
    ⟨(), s, repeatWhile_done bound (denies.denies c s bound ends), valid, ends⟩

end RepeatWhile

end BindingRepair.Script.Grammar
