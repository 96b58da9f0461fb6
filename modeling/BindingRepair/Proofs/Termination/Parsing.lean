/-
# Parsing comes to an end

By induction on the bound on the depth of calls, the parser for each rule comes to an end where the bound
is above sixteen times the number of characters left. So no bound is used up when a source is parsed.
-/

import BindingRepair.Proofs.Grammar.WellFormed
import BindingRepair.Proofs.Positions
import BindingRepair.Proofs.Termination.Items

set_option synthInstance.maxSize 20000
set_option synthInstance.maxHeartbeats 100000

namespace BindingRepair.Script

open Text

namespace Grammar

variable {α : Type} {origin : Cursor} {k need : Nat} {rules : Rules} {c : Context} {s t : State}

/-! ### Rules -/

/-- Before a construct has read anything it calls only rules that rank below its own. -/
theorem serves_rule [Provides k rules] (r : Rule) : Serves k r.rank (rule rules r) := by
  cases r with
  | item => exact inferInstanceAs (Serves k 6 (nested (rules .bareItem)))
  | bareItem => exact inferInstanceAs (Serves k 5 (bareItem rules))
  | assignment noIn => exact inferInstanceAs (Serves k 4 (nested (assignment rules noIn)))
  | binary precedence noIn => exact inferInstanceAs (Serves k 3 (binary rules precedence noIn))
  | unary => exact inferInstanceAs (Serves k 2 (nested (unary rules)))
  | callee => exact inferInstanceAs (Serves k 1 (callee rules))
  | construction => exact inferInstanceAs (Serves k 1 (construction rules))
  | target kind => exact inferInstanceAs (Serves k 0 (nested (bindingTarget rules kind)))
  | element => exact inferInstanceAs (Serves k 0 (nested (element rules)))
  | type => exact inferInstanceAs (Serves k 1 (nested (typeExpression rules)))
  | typeOperand => exact inferInstanceAs (Serves k 0 (nested (typeOperand rules)))

/-- A parser that has room for calls of a rank may be called with one step more by all that rank higher. -/
theorem Serves.succ {rank : Nat} {p : Parser α} (serves : Serves k rank p) (lower : rank < need) :
    Serves (k + 1) need p where
  halts := by
    constructor
    intro origin c s valid bound room
    have calls := room.calls
    by_cases ends : s.AtEnd
    · obtain ⟨e, t, result, failsAt⟩ := serves.fails.fails origin c s valid (by omega) (by omega) ends
      rw [result]
      exact failsAt
    · exact serves.halts.ends origin c s valid bound ⟨by omega, fun ends' => absurd ends' ends⟩
  strides := by
    constructor
    intro origin c s t a valid bound room left
    have calls := room.calls
    exact serves.strides.passes origin c s t a valid bound ⟨by omega, fun ends => absurd ends left⟩ left
  fails := by
    constructor
    intro origin c s valid bound calls
    exact serves.fails.fails origin c s valid bound (by omega)

theorem provides_derive (n : Nat) : Provides n (derive n) := by
  induction n with
  | zero =>
      constructor
      intro r need lower _
      have none : ¬ need ≤ 0 := by omega
      refine ⟨⟨?_⟩, ⟨?_⟩, ⟨?_⟩⟩
      · intro _ _ _ _ _ room
        exact absurd (Nat.le_trans (Nat.le_add_left ..) room.calls) none
      · intro _ _ _ _ _ _ _ room
        exact absurd (Nat.le_trans (Nat.le_add_left ..) room.calls) none
      · intro _ _ _ _ _ calls
        exact absurd calls none
  | succ n ih =>
      constructor
      intro r need lower _
      exact (serves_rule r).succ lower

/-- With enough steps and calls for what is left, the parser for a rule comes to an end, and where it does
not fail it has read something. -/
theorem derive_ends (n : Nat) (r : Rule) (valid : s.Valid origin) (bound : s.left + 2 ≤ c.bound)
    (calls : 16 * s.left + 16 ≤ n) : Ends origin s (derive n r c s) ∧
      ∀ a t, derive n r c s = .ok a t → s.previousEnd.Passes t.previousEnd := by
  have serves := (provides_derive n).all r
  have room : Room n 16 s := ⟨calls, fun _ => rfl⟩
  constructor
  · exact serves.halts.ends origin c s valid bound room
  · intro a t result
    by_cases left : s.AtEnd
    · have ⟨e, u, fails, _⟩ := serves.fails.fails origin c s valid (by omega) (by omega) left
      rw [fails] at result
      cases result
    · exact serves.strides.passes origin c s t a valid bound room left result rfl

/-! ### Modules -/

theorem moduleBody_ends (source : List Char) (valid : s.Valid origin) (bound : s.left + 2 ≤ c.bound) :
    Ends origin s (moduleBody source c s) := by
  have provides := provides_derive (callBound c)
  have room : Room (callBound c) 16 s := by
    refine ⟨?_, fun _ => rfl⟩
    rw [callBound]
    omega
  unfold moduleBody
  rw [bind_ok read_apply]
  exact (inferInstance : Halts (callBound c) 16 _).ends origin c s valid bound room

theorem length_le_byteLength (text : List Char) : text.length ≤ byteLength text := by
  induction text with
  | nil => exact Nat.le_refl 0
  | cons x xs ih =>
      have positive := x.utf8Size_pos
      rw [List.length_cons, byteLength]
      omega

theorem valid_initialState (source : List Char) : (initialState source).Valid (Cursor.start source) where
  behind := .refl _
  sound := ⟨Token.reaches_read _, Token.reaches_read _, Token.covers_read _⟩
  kind := Token.isNone_read _
  opened _ none := absurd none List.not_mem_nil
  scope := State.knowsScope_initialState source

end Grammar

end BindingRepair.Script
