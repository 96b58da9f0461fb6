/-
# Parsers come to an end

Loops and chains of calls have bounds on their steps, which must never be used up: every round of a loop
that is not the last one moves forward, and so does every call of a rule between two calls of that rule.
A parser `Halts` if from every place it ends in another place of the text or fails at one, with bounds to
spare; a parser `Strides` if it moves forward where a token is left. Where none is left, parsers that
would have to move forward fail.

Rules have ranks: before anything is read, a rule calls only rules of lower rank. From one place to the
next there is room for calls of all ranks.
-/

import BindingRepair.Proofs.Grammar.Evaluation

set_option synthInstance.maxSize 20000
set_option synthInstance.maxHeartbeats 100000

namespace BindingRepair.Script.Grammar

open Text

variable {α β σ : Type} {origin : Cursor}

/-! ### States -/

namespace State

/-- The current token is none that holds something. -/
structure AtEnd (s : State) : Prop where
  rest : s.token.first.rest = []
  kind : s.token.kind = .endOfText ∨ s.token.kind = .invalid

/-- The place is one in the text, the token there is none unless it holds something, and the open nodes
and the current scope exist. -/
structure Valid (origin : Cursor) (s : State) : Prop where
  behind : origin.Reaches s.previousEnd
  sound : s.Sound origin
  kind : s.token.first.rest = [] → s.token.kind = .endOfText ∨ s.token.kind = .invalid
  opened : ∀ id ∈ s.opened, s.Knows id
  scope : s.KnowsScope s.scope

theorem Valid.rest_ne_nil {s : State} (valid : s.Valid origin) (left : ¬ s.AtEnd) :
    s.token.first.rest ≠ [] :=
  fun none => left ⟨none, valid.kind none⟩

/-- How many characters lie behind what has been read. -/
def left (s : State) : Nat :=
  s.previousEnd.rest.length

end State

/-- Neither the place moves back nor does anything vanish. Where a token was left and nothing has been
read, one is left still. -/
structure Advances (s t : State) : Prop where
  previousEnd : s.previousEnd.Reaches t.previousEnd
  token : ¬ s.AtEnd → s.previousEnd.Passes t.previousEnd ∨ ¬ t.AtEnd
  depth : t.depth = s.depth
  nodes : s.nodes.size ≤ t.nodes.size
  scopes : s.scopes.size ≤ t.scopes.size

/-- The place and the depth are the same. -/
structure Stays (s t : State) : Prop where
  token : t.token = s.token
  previousEnd : t.previousEnd = s.previousEnd
  depth : t.depth = s.depth
  nodes : s.nodes.size ≤ t.nodes.size
  scopes : s.scopes.size ≤ t.scopes.size
  opened : (∀ id ∈ s.opened, s.Knows id) → ∀ id ∈ t.opened, t.Knows id
  scope : s.KnowsScope s.scope → t.KnowsScope t.scope

section States

variable {s t u : State}

theorem Advances.refl (s : State) : Advances s s :=
  ⟨.refl _, .inr, rfl, Nat.le_refl _, Nat.le_refl _⟩

theorem Advances.trans (first : Advances s t) (second : Advances t u) : Advances s u where
  previousEnd := first.previousEnd.trans second.previousEnd
  token left := by
    rcases first.token left with passes | left
    · exact .inl (passes.trans_reaches second.previousEnd)
    · exact (second.token left).imp_left first.previousEnd.trans_passes
  depth := second.depth.trans first.depth
  nodes := Nat.le_trans first.nodes second.nodes
  scopes := Nat.le_trans first.scopes second.scopes

theorem Advances.left_le (advances : Advances s t) : t.left ≤ s.left :=
  advances.previousEnd.length_le

theorem Stays.refl (s : State) : Stays s s :=
  ⟨rfl, rfl, rfl, Nat.le_refl _, Nat.le_refl _, id, id⟩

theorem Stays.trans (first : Stays s t) (second : Stays t u) : Stays s u where
  token := second.token.trans first.token
  previousEnd := second.previousEnd.trans first.previousEnd
  depth := second.depth.trans first.depth
  nodes := Nat.le_trans first.nodes second.nodes
  scopes := Nat.le_trans first.scopes second.scopes
  opened known := second.opened (first.opened known)
  scope known := second.scope (first.scope known)

theorem Stays.atEnd_iff (stays : Stays s t) : t.AtEnd ↔ s.AtEnd := by
  constructor
  · exact fun ends => ⟨stays.token ▸ ends.rest, stays.token ▸ ends.kind⟩
  · exact fun ends => ⟨stays.token ▸ ends.rest, stays.token ▸ ends.kind⟩

theorem Stays.advances (stays : Stays s t) : Advances s t where
  previousEnd := stays.previousEnd ▸ .refl _
  token left := .inr (mt stays.atEnd_iff.mp left)
  depth := stays.depth
  nodes := stays.nodes
  scopes := stays.scopes

theorem Stays.valid (stays : Stays s t) (valid : s.Valid origin) : t.Valid origin where
  behind := stays.previousEnd ▸ valid.behind
  sound := valid.sound.of_same stays.token stays.previousEnd
  kind none := stays.token ▸ valid.kind (stays.token ▸ none)
  opened := stays.opened valid.opened
  scope := stays.scope valid.scope

theorem Stays.left_eq (stays : Stays s t) : t.left = s.left := by
  rw [State.left, State.left, stays.previousEnd]

end States

/-! ### Room -/

/-- The order in which rules call each other before anything is read. -/
def Rule.rank : Rule → Nat
  | element | target _ | typeOperand => 0
  | callee | construction | type => 1
  | unary => 2
  | binary .. => 3
  | assignment _ => 4
  | bareItem => 5
  | item => 6

/-- Rules may be called that rank below `need`, and all others behind what is read next. At the end of
the text nothing is read next. -/
structure Room (k need : Nat) (s : State) : Prop where
  calls : 16 * s.left + need ≤ k
  token : s.AtEnd → need = 16

section Room

variable {k need : Nat} {s t : State}

theorem Room.of_stays (room : Room k need s) (stays : Stays s t) : Room k need t where
  calls := stays.left_eq ▸ room.calls
  token ends := room.token (stays.atEnd_iff.mp ends)

/-- Behind what has been read there is room for calls of all rules. -/
theorem Room.of_passes (room : Room k need s) (passes : s.previousEnd.Passes t.previousEnd) :
    Room k 16 t where
  calls := by
    have shorter : t.left < s.left := passes.length_lt
    have calls := room.calls
    omega
  token _ := rfl

theorem Room.of_advances (room : Room k 16 s) (advances : Advances s t) : Room k 16 t where
  calls := by
    have shorter := advances.left_le
    have calls := room.calls
    omega
  token _ := rfl

/-- Something has been read, or the room is the same. -/
theorem Room.passes_or (room : Room k need s) (left : ¬ s.AtEnd) (advances : Advances s t) :
    s.previousEnd.Passes t.previousEnd ∨ ¬ t.AtEnd ∧ Room k need t := by
  refine (advances.token left).imp_right fun left' => ⟨left', ?_, fun ends => absurd ends left'⟩
  have shorter := advances.left_le
  have calls := room.calls
  omega

end Room

/-! ### Ways to end -/

/-- The parser fails at a place of the text, and not for want of steps. -/
structure FailsAt (origin : Cursor) (e : Failure) (t : State) : Prop where
  cause : e.cause ≠ .exhausted
  marks : origin.Marks e.offset
  valid : t.Valid origin

theorem State.Valid.fails {s : State} (valid : s.Valid origin) {cause : Cause} (other : cause ≠ .exhausted) :
    FailsAt origin ⟨s.token.start, cause⟩ s :=
  ⟨other, valid.sound.reaches_first.marks, valid⟩

/-- Where a parser ends that has begun in a state. -/
def Ends (origin : Cursor) (s : State) : EStateM.Result Failure State α → Prop
  | .ok _ t => t.Valid origin ∧ Advances s t
  | .error e t => FailsAt origin e t

/-- With room for calls the parser ends without using up a bound. -/
class Halts (k need : Nat) (p : Parser α) : Prop where
  ends : ∀ (origin : Cursor) (c : Context) (s : State), s.Valid origin → s.left + 2 ≤ c.bound →
    Room k need s → Ends origin s (p c s)

/-- Where a token is left, something has been read when the parser gives a good answer. -/
class Strides (k need : Nat) (good : α → Bool) (p : Parser α) : Prop where
  passes : ∀ (origin : Cursor) (c : Context) (s t : State) (a : α), s.Valid origin →
    s.left + 2 ≤ c.bound → Room k need s → ¬ s.AtEnd → p c s = .ok a t → good a = true →
    s.previousEnd.Passes t.previousEnd

/-- Every answer is good. -/
def always (_ : α) : Bool :=
  true

/-- The parser never fails and stays where it is. -/
class Still (p : Parser α) : Prop where
  stays : ∀ (c : Context) (s : State), ∃ a t, p c s = .ok a t ∧ Stays s t

/-- Where no token is left, the parser does not fail, and none is left behind it. -/
class Settles (p : Parser α) : Prop where
  settles : ∀ (origin : Cursor) (c : Context) (s : State), s.Valid origin → 0 < c.bound → s.AtEnd →
    ∃ a t, p c s = .ok a t ∧ t.Valid origin ∧ t.AtEnd

/-- Where no token is left, the parser only answers no. -/
class Denies (p : Parser Bool) : Prop where
  denies : ∀ (c : Context) (s : State), 0 < c.bound → s.AtEnd → p c s = .ok false s

/-- Where no token is left, the parser gives no good answer. -/
class Stops (k : Nat) (good : α → Bool) (p : Parser α) : Prop where
  stops : ∀ (origin : Cursor) (c : Context) (s t : State) (a : α), s.Valid origin → 0 < c.bound → 16 ≤ k →
    s.AtEnd → p c s = .ok a t → good a = false

/-- Where no token is left, the parser fails, and not for want of steps. -/
class Fails (k need : Nat) (p : Parser α) : Prop where
  fails : ∀ (origin : Cursor) (c : Context) (s : State), s.Valid origin → 0 < c.bound → need ≤ k →
    s.AtEnd → ∃ e t, p c s = .error e t ∧ FailsAt origin e t

theorem bind_eq_ok {p : Parser α} {f : α → Parser β} {c : Context} {s u : State} {b : β}
    (result : (p >>= f) c s = .ok b u) : ∃ a t, p c s = .ok a t ∧ f a c t = .ok b u := by
  rw [bind_apply] at result
  cases first : p c s with
  | ok a t =>
      rw [first] at result
      exact ⟨a, t, rfl, result⟩
  | error e t =>
      rw [first] at result
      cases result

/-! ### Parsers that stay -/

section Still

variable {p q : Parser α} {f : α → Parser β}

instance (a : α) : Still (pure a) where
  stays _ s := ⟨a, s, rfl, .refl s⟩

theorem Still.bind (first : Still p) (rest : ∀ a, Still (f a)) : Still (p >>= f) where
  stays c s := by
    have ⟨a, t, result, stays⟩ := first.stays c s
    have ⟨b, u, result', stays'⟩ := (rest a).stays c t
    use b, u
    rw [bind_ok result]
    exact ⟨result', stays.trans stays'⟩

instance [first : Still p] [rest : ∀ a, Still (f a)] : Still (p >>= f) :=
  first.bind rest

instance {f : α → β} [Still p] : Still (f <$> p) :=
  inferInstanceAs (Still (p >>= fun a => pure (f a)))

instance {c : Prop} [Decidable c] [yes : Still p] [no : Still q] : Still (if c then p else q) := by
  split
  · exact yes
  · exact no

instance : Still (get : Parser State) where
  stays _ s := ⟨s, s, rfl, .refl s⟩

instance : Still (read : Parser Context) where
  stays c s := ⟨c, s, rfl, .refl s⟩

theorem still_modify {f : State → State} (stays : ∀ s, Stays s (f s)) : Still (modify f : Parser PUnit) where
  stays _ s := ⟨⟨⟩, f s, rfl, stays s⟩

theorem still_modifyGet {f : State → α × State} (stays : ∀ s, Stays s (f s).2) :
    Still (modifyGet f : Parser α) where
  stays _ s := ⟨(f s).1, (f s).2, rfl, stays s⟩

end Still

section Halts

variable {k need : Nat} {good : α → Bool} {p q : Parser α} {f : α → Parser β}

instance (priority := low) [still : Still p] : Halts k need p where
  ends origin c s valid _ _ := by
    have ⟨a, t, result, stays⟩ := still.stays c s
    rw [result]
    exact ⟨stays.valid valid, stays.advances⟩

/-- What ends behind a parser that has moved on. -/
theorem Ends.bind {s : State} {c : Context} (first : Ends origin s (p c s))
    (rest : ∀ a t, p c s = .ok a t → t.Valid origin → Advances s t → Ends origin t (f a c t)) :
    Ends origin s ((p >>= f) c s) := by
  rw [bind_apply]
  cases result : p c s with
  | error e t =>
      rw [result] at first
      exact first
  | ok a t =>
      rw [result] at first
      have behind := rest a t result first.1 first.2
      dsimp only
      cases result' : f a c t with
      | error e u =>
          rw [result'] at behind
          exact behind
      | ok b u =>
          rw [result'] at behind
          exact ⟨behind.1, first.2.trans behind.2⟩

/-- Moving on leaves bounds for as many steps as are left. -/
theorem Advances.bound {s t : State} {c : Context} (advances : Advances s t) (bound : s.left + 2 ≤ c.bound) :
    t.left + 2 ≤ c.bound :=
  Nat.le_trans (Nat.add_le_add_right advances.left_le 2) bound

theorem Halts.bind_still (first : Still p) (rest : ∀ a, Halts k need (f a)) : Halts k need (p >>= f) where
  ends origin c s valid bound room := by
    have ⟨a, t, result, stays⟩ := first.stays c s
    have behind := (rest a).ends origin c t (stays.valid valid) (stays.advances.bound bound)
      (room.of_stays stays)
    apply Ends.bind
    · rw [result]
      exact ⟨stays.valid valid, stays.advances⟩
    · intro b u result' _ _
      rw [result] at result'
      cases result'
      exact behind

instance (priority := high) [first : Still p] [rest : ∀ a, Halts k need (f a)] : Halts k need (p >>= f) :=
  Halts.bind_still first rest

instance [first : Halts k 16 p] [rest : ∀ a, Halts k 16 (f a)] : Halts k 16 (p >>= f) where
  ends origin c s valid bound room := by
    apply Ends.bind (first.ends origin c s valid bound room)
    intro a t _ valid' advances
    exact (rest a).ends origin c t valid' (advances.bound bound) (room.of_advances advances)

/-- Behind a parser that has read something all rules may be called. -/
theorem Halts.bind_strides (first : Halts k need p) (strides : Strides k need always p)
    (rest : ∀ a, Halts k 16 (f a)) : Halts k need (p >>= f) where
  ends origin c s valid bound room := by
    apply Ends.bind (first.ends origin c s valid bound room)
    intro a t result valid' advances
    apply (rest a).ends origin c t valid' (advances.bound bound)
    by_cases ends : s.AtEnd
    · have all := room.token ends
      subst all
      exact room.of_advances advances
    · exact room.of_passes (strides.passes origin c s t a valid bound room ends result rfl)

instance (priority := low) [first : Halts k need p] [strides : Strides k need always p]
    [rest : ∀ a, Halts k 16 (f a)] : Halts k need (p >>= f) :=
  first.bind_strides strides rest

/-- Behind a parser that may have read something, either way there is room. -/
theorem Halts.bind (first : Halts k need p) (further : ∀ a, Halts k 16 (f a))
    (rest : ∀ a, Halts k need (f a)) : Halts k need (p >>= f) where
  ends origin c s valid bound room := by
    apply Ends.bind (first.ends origin c s valid bound room)
    intro a t _ valid' advances
    by_cases ends : s.AtEnd
    · have all := room.token ends
      subst all
      exact (further a).ends origin c t valid' (advances.bound bound) (room.of_advances advances)
    · rcases room.passes_or ends advances with passes | ⟨_, same⟩
      · exact (further a).ends origin c t valid' (advances.bound bound) (room.of_passes passes)
      · exact (rest a).ends origin c t valid' (advances.bound bound) same

instance (priority := low) [first : Halts k need p] [further : ∀ a, Halts k 16 (f a)]
    [rest : ∀ a, Halts k need (f a)] : Halts k need (p >>= f) :=
  first.bind further rest

/-- What is behind a parser that answers no has the same room, if something is read for a yes. -/
theorem Halts.bind_id {p : Parser Bool} {f : Bool → Parser β} (first : Halts k need p)
    (yes : Strides k need id p) (further : ∀ a, Halts k 16 (f a)) (no : Halts k need (f false)) :
    Halts k need (p >>= f) where
  ends origin c s valid bound room := by
    apply Ends.bind (first.ends origin c s valid bound room)
    intro a t result valid' advances
    by_cases ends : s.AtEnd
    · have all := room.token ends
      subst all
      exact (further a).ends origin c t valid' (advances.bound bound) (room.of_advances advances)
    · cases a with
      | true =>
          have passes := yes.passes origin c s t true valid bound room ends result rfl
          exact (further true).ends origin c t valid' (advances.bound bound) (room.of_passes passes)
      | false =>
          rcases room.passes_or ends advances with passes | ⟨_, same⟩
          · exact (further false).ends origin c t valid' (advances.bound bound) (room.of_passes passes)
          · exact no.ends origin c t valid' (advances.bound bound) same

instance {p : Parser Bool} {f : Bool → Parser β} [first : Halts k need p] [yes : Strides k need id p]
    [further : ∀ a, Halts k 16 (f a)] [no : Halts k need (f false)] : Halts k need (p >>= f) :=
  first.bind_id yes further no

instance {f : α → β} [first : Halts k need p] : Halts k need (f <$> p) where
  ends origin c s valid bound room :=
    Ends.bind (f := fun a => pure (f a)) (first.ends origin c s valid bound room)
      fun _ t _ valid' _ => ⟨valid', .refl t⟩

instance {c : Prop} [Decidable c] [yes : Halts k need p] [no : Halts k need q] :
    Halts k need (if c then p else q) := by
  split
  · exact yes
  · exact no

instance (priority := high) [no : Halts k need q] : Halts k need (if false = true then p else q) :=
  no

end Halts

/-! ### Parsers that move forward -/

section Strides

variable {k need : Nat} {good : β → Bool} {p q : Parser α} {f : α → Parser β}

/-- What ends well has ended at a place ahead. -/
theorem Halts.ok [halts : Halts k need p] {c : Context} {s t : State} {a : α} (valid : s.Valid origin)
    (bound : s.left + 2 ≤ c.bound) (room : Room k need s) (result : p c s = .ok a t) :
    t.Valid origin ∧ Advances s t := by
  have ends := halts.ends origin c s valid bound room
  rwa [result] at ends

theorem Strides.bind_still (first : Still p) (rest : ∀ a, Strides k need good (f a)) :
    Strides k need good (p >>= f) where
  passes origin c s u b valid bound room left result is := by
    have ⟨a, t, result', stays⟩ := first.stays c s
    rw [bind_ok result'] at result
    rw [← stays.previousEnd]
    exact (rest a).passes origin c t u b (stays.valid valid) (stays.advances.bound bound)
      (room.of_stays stays) (mt stays.atEnd_iff.mp left) result is

instance (priority := high) [first : Still p] [rest : ∀ a, Strides k need good (f a)] :
    Strides k need good (p >>= f) :=
  Strides.bind_still first rest

instance [first : Halts k need p] [strides : Strides k need always p] [rest : ∀ a, Halts k 16 (f a)] :
    Strides k need good (p >>= f) where
  passes origin c s u b valid bound room left result _ := by
    have ⟨a, t, result', result''⟩ := bind_eq_ok result
    have ⟨valid', advances⟩ := first.ok valid bound room result'
    have passes := strides.passes origin c s t a valid bound room left result' rfl
    have further := (rest a).ok valid' (advances.bound bound) (room.of_passes passes) result''
    exact passes.trans_reaches further.2.previousEnd

/-- If the first part may have read nothing, the rest has to read something. -/
theorem Strides.bind (first : Halts k need p) (further : ∀ a, Halts k 16 (f a))
    (strides : ∀ a, Strides k need good (f a)) : Strides k need good (p >>= f) where
  passes origin c s u b valid bound room left result is := by
    have ⟨a, t, result', result''⟩ := bind_eq_ok result
    have ⟨valid', advances⟩ := first.ok valid bound room result'
    rcases room.passes_or left advances with passes | ⟨left', same⟩
    · have beyond := (further a).ok valid' (advances.bound bound) (room.of_passes passes) result''
      exact passes.trans_reaches beyond.2.previousEnd
    · exact advances.previousEnd.trans_passes
        ((strides a).passes origin c t u b valid' (advances.bound bound) same left' result'' is)

instance (priority := low) [first : Halts k need p] [further : ∀ a, Halts k 16 (f a)]
    [strides : ∀ a, Strides k need good (f a)] : Strides k need good (p >>= f) :=
  Strides.bind first further strides

/-- If the first part reads something where it answers yes, the rest has to do so where it does not. -/
theorem Strides.bind_id {p : Parser Bool} {f : Bool → Parser β} (first : Halts k need p)
    (yes : Strides k need id p) (further : ∀ a, Halts k 16 (f a)) (no : Strides k need good (f false)) :
    Strides k need good (p >>= f) where
  passes origin c s u b valid bound room left result is := by
    have ⟨a, t, result', result''⟩ := bind_eq_ok result
    have ⟨valid', advances⟩ := first.ok valid bound room result'
    have beyond (passes : s.previousEnd.Passes t.previousEnd) : s.previousEnd.Passes u.previousEnd :=
      have further := (further a).ok valid' (advances.bound bound) (room.of_passes passes) result''
      passes.trans_reaches further.2.previousEnd
    cases a with
    | true => exact beyond (yes.passes origin c s t true valid bound room left result' rfl)
    | false =>
        rcases room.passes_or left advances with passes | ⟨left', same⟩
        · exact beyond passes
        · exact advances.previousEnd.trans_passes
            (no.passes origin c t u b valid' (advances.bound bound) same left' result'' is)

instance {p : Parser Bool} {f : Bool → Parser β} [first : Halts k need p] [yes : Strides k need id p]
    [further : ∀ a, Halts k 16 (f a)] [no : Strides k need good (f false)] : Strides k need good (p >>= f) :=
  Strides.bind_id first yes further no

instance {good : β → Bool} {f : α → β} [strides : Strides k need always p] :
    Strides k need good (f <$> p) where
  passes origin c s t b valid bound room left result _ := by
    have ⟨a, u, result', result''⟩ := bind_eq_ok (f := fun a => pure (f a)) result
    cases result''
    exact strides.passes origin c s t a valid bound room left result' rfl

instance {good : α → Bool} {c : Prop} [Decidable c] [yes : Strides k need good p]
    [no : Strides k need good q] : Strides k need good (if c then p else q) := by
  split
  · exact yes
  · exact no

instance (priority := high) {good : α → Bool} [no : Strides k need good q] :
    Strides k need good (if false = true then p else q) :=
  no

/-- An answer that is not good does not count. -/
theorem strides_pure {good : α → Bool} {a : α} (bad : good a = false) : Strides k need good (pure a) where
  passes _ _ _ _ _ _ _ _ _ result is := by
    cases result
    rw [bad] at is
    cases is

instance : Strides k need id (pure false) :=
  strides_pure rfl

instance (a : α) : Strides k need Sum.isLeft (pure (Sum.inr a : Sum σ α)) :=
  strides_pure rfl

/-- A parser that always reads something does so for a good answer. -/
theorem Strides.of_always {good : α → Bool} (strides : Strides k need always p) : Strides k need good p where
  passes origin c s t a valid bound room left result _ :=
    strides.passes origin c s t a valid bound room left result rfl

end Strides

/-! ### Parsers where no token is left -/

section AtEnd

variable {k need : Nat} {good : β → Bool} {p q : Parser α} {f : α → Parser β}

instance (priority := low) [still : Still p] : Settles p where
  settles origin c s valid _ ends := by
    have ⟨a, t, result, stays⟩ := still.stays c s
    exact ⟨a, t, result, stays.valid valid, stays.atEnd_iff.mpr ends⟩

instance (priority := low) {p : Parser Bool} [denies : Denies p] : Settles p where
  settles _ c s valid bound ends := ⟨false, s, denies.denies c s bound ends, valid, ends⟩

instance [first : Settles p] [rest : ∀ a, Settles (f a)] : Settles (p >>= f) where
  settles origin c s valid bound ends := by
    have ⟨a, t, result, valid', ends'⟩ := first.settles origin c s valid bound ends
    rw [bind_ok result]
    exact (rest a).settles origin c t valid' bound ends'

instance (priority := low) {p : Parser Bool} {f : Bool → Parser β} [first : Denies p] [rest : Settles (f false)] :
    Settles (p >>= f) where
  settles origin c s valid bound ends := by
    rw [bind_ok (first.denies c s bound ends)]
    exact rest.settles origin c s valid bound ends

instance {c : Prop} [Decidable c] [yes : Settles p] [no : Settles q] : Settles (if c then p else q) := by
  split
  · exact yes
  · exact no

instance (priority := high) [no : Settles q] : Settles (if false = true then p else q) :=
  no

instance (priority := high) {b : Bool} [no : Settles q] : Settles (if (false && b) = true then p else q) :=
  no

instance : Denies (pure false) where
  denies _ _ _ _ := rfl

instance {p : Parser Bool} {f : Bool → Parser Bool} [first : Denies p] [rest : Denies (f false)] :
    Denies (p >>= f) where
  denies c s bound ends := by
    rw [bind_ok (first.denies c s bound ends)]
    exact rest.denies c s bound ends

instance {p q : Parser Bool} [no : Denies q] : Denies (if false = true then p else q) :=
  no

instance [fails : Fails k 16 p] {good : α → Bool} : Stops k good p where
  stops origin c s t a valid bound calls ends result := by
    have ⟨e, u, result', _⟩ := fails.fails origin c s valid bound calls ends
    rw [result] at result'
    cases result'

instance (priority := low) {p : Parser Bool} [denies : Denies p] : Stops k id p where
  stops _ c s t a _ bound _ ends result := by
    rw [denies.denies c s bound ends] at result
    cases result
    rfl

instance [first : Stops k always p] : Stops k good (p >>= f) where
  stops origin c s u b valid bound calls ends result := by
    have ⟨a, t, result', _⟩ := bind_eq_ok result
    cases first.stops origin c s t a valid bound calls ends result'

instance [first : Settles p] [rest : ∀ a, Stops k good (f a)] : Stops k good (p >>= f) where
  stops origin c s u b valid bound calls ends result := by
    have ⟨a, t, result', valid', ends'⟩ := first.settles origin c s valid bound ends
    rw [bind_ok result'] at result
    exact (rest a).stops origin c t u b valid' bound calls ends' result

instance {p : Parser Bool} {f : Bool → Parser β} [first : Denies p] [rest : Stops k good (f false)] :
    Stops k good (p >>= f) where
  stops origin c s u b valid bound calls ends result := by
    rw [bind_ok (first.denies c s bound ends)] at result
    exact rest.stops origin c s u b valid bound calls ends result

instance {good : α → Bool} {c : Prop} [Decidable c] [yes : Stops k good p] [no : Stops k good q] :
    Stops k good (if c then p else q) := by
  split
  · exact yes
  · exact no

instance (priority := high) {good : α → Bool} [no : Stops k good q] :
    Stops k good (if false = true then p else q) :=
  no

instance (priority := high) {good : α → Bool} {b : Bool} [no : Stops k good q] :
    Stops k good (if (false && b) = true then p else q) :=
  no

theorem stops_pure {good : α → Bool} {a : α} (bad : good a = false) : Stops k good (pure a) where
  stops _ _ _ _ _ _ _ _ _ result := by
    cases result
    exact bad

instance : Stops k id (pure false) :=
  stops_pure rfl

instance (a : α) : Stops k Sum.isLeft (pure (Sum.inr a : Sum σ α)) :=
  stops_pure rfl

instance [first : Fails k need p] : Fails k need (p >>= f) where
  fails origin c s valid bound calls ends := by
    have ⟨e, t, result, failsAt⟩ := first.fails origin c s valid bound calls ends
    use e, t
    rw [bind_apply, result]
    exact ⟨rfl, failsAt⟩

instance [first : Settles p] [rest : ∀ a, Fails k need (f a)] : Fails k need (p >>= f) where
  fails origin c s valid bound calls ends := by
    have ⟨a, t, result, valid', ends'⟩ := first.settles origin c s valid bound ends
    rw [bind_ok result]
    exact (rest a).fails origin c t valid' bound calls ends'

theorem Fails.bind_denies {p : Parser Bool} {f : Bool → Parser β} (first : Denies p)
    (rest : Fails k need (f false)) : Fails k need (p >>= f) where
  fails origin c s valid bound calls ends := by
    rw [bind_ok (first.denies c s bound ends)]
    exact rest.fails origin c s valid bound calls ends

instance {p : Parser Bool} {f : Bool → Parser β} [first : Denies p] [rest : Fails k need (f false)] :
    Fails k need (p >>= f) :=
  .bind_denies first rest

instance {f : α → β} [Fails k need p] : Fails k need (f <$> p) :=
  inferInstanceAs (Fails k need (p >>= fun a => pure (f a)))

instance {c : Prop} [Decidable c] [yes : Fails k need p] [no : Fails k need q] :
    Fails k need (if c then p else q) := by
  split
  · exact yes
  · exact no

instance (priority := high) [no : Fails k need q] : Fails k need (if false = true then p else q) :=
  no

instance (priority := high) {b : Bool} [no : Fails k need q] :
    Fails k need (if (false && b) = true then p else q) :=
  no

instance (priority := high) {b : Bool} [no : Fails k need q] :
    Fails k need (if (b && false) = true then p else q) := by
  rw [if_neg (by simp)]
  exact no

end AtEnd

/-! ### Parsers that read something -/

/-- The parser comes to an end and reads something where a token is left. -/
class Consumes (k need : Nat) (p : Parser α) : Prop where
  halts : Halts k need p
  strides : Strides k need always p

/-- The parser comes to an end and reads something. Where no token is left it fails. -/
class Serves (k need : Nat) (p : Parser α) : Prop where
  halts : Halts k need p
  strides : Strides k need always p
  fails : Fails k need p

section Serves

variable {k need : Nat} {p : Parser α}

instance (priority := low) [consumes : Consumes k need p] : Halts k need p :=
  consumes.halts

instance (priority := low) [consumes : Consumes k need p] {good : α → Bool} : Strides k need good p :=
  .of_always consumes.strides

instance (priority := low) [serves : Serves k need p] : Halts k need p :=
  serves.halts

instance (priority := low) [serves : Serves k need p] {good : α → Bool} : Strides k need good p :=
  .of_always serves.strides

instance (priority := low) [serves : Serves k need p] : Fails k need p :=
  serves.fails

end Serves

end BindingRepair.Script.Grammar
