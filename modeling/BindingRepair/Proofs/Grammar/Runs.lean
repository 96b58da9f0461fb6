/-
# Parsers take steps

`Runs` says of a parser what it does where it succeeds: all its changes are steps of a growing tree, it
moves forward in the text, it leaves open the nodes that were open before, and no node reaches beyond
what has been read. Parsers of tokens do not touch the tree at all, also where they fail. All this is
closed under the ways in which parsers are put together, so it is enough to know it of the operations on
the state.
-/

import BindingRepair.Proofs.Grammar.Growth

namespace BindingRepair.Script.Grammar

open Text

variable {α β σ : Type} {origin : Cursor}

theorem bind_apply (p : Parser α) (f : α → Parser β) (c : Context) (s : State) :
    (p >>= f) c s = match p c s with
      | .ok a t => f a c t
      | .error e t => .error e t := by
  simp only [Bind.bind, ReaderT.bind, EStateM.bind]
  cases p c s <;> rfl

/-! ### The place in the text -/

/-- The current token is one that is reached from an origin, and it was read behind the last one. -/
structure State.Sound (origin : Cursor) (s : State) : Prop where
  reaches_first : origin.Reaches s.token.first
  token : s.previousEnd.Reaches s.token.first
  covers : s.token.Covers

namespace State.Sound

variable {s t : State} (sound : s.Sound origin)
include sound

theorem reaches_last : origin.Reaches s.token.last :=
  sound.reaches_first.trans sound.covers.fills.reaches

/-- The place behind a punctuator of one byte. -/
theorem marks_behind {mark : String} (here : s.token.isPunctuator mark = true)
    (byte : byteLength mark.toList = 1) : origin.Marks (s.token.start + 1) := by
  rw [← byte, ← sound.covers.stop_of_isPunctuator here]
  exact sound.reaches_last.marks

/-- The current token is an opening brace. -/
theorem opens (brace : s.token.isPunctuator "\x7b" = true) : Opens origin s.token.start := by
  have text : s.token.text.toList.head? = some '{' := by
    rw [beq_iff_eq.mp (Bool.and_eq_true_iff.mp brace).2]
    rfl
  obtain ⟨cs, rest⟩ := sound.covers.rest_of_text text
  exact ⟨cs, rest ▸ sound.reaches_first⟩

end State.Sound

theorem State.Sound.of_same {s t : State} (sound : s.Sound origin) (token : t.token = s.token)
    (previousEnd : t.previousEnd = s.previousEnd) : t.Sound origin where
  reaches_first := token ▸ sound.reaches_first
  token := by
    rw [previousEnd, token]
    exact sound.token
  covers := token ▸ sound.covers

/-- Only the counters and the flags change. -/
structure Idle (f : State → State) : Prop where
  same : ∀ s : State, s.SameTree (f s)
  token : ∀ s : State, (f s).token = s.token
  previousEnd : ∀ s : State, (f s).previousEnd = s.previousEnd

/-- Neither the place behind the last token nor that of the current one moves back. -/
structure Onward (s t : State) : Prop where
  previousEnd : s.previousEnd.Reaches t.previousEnd
  first : s.token.first.Reaches t.token.first

/-- The current token has been read, so at least one character unless the text ends. -/
def Consumed (s t : State) : Prop :=
  s.token.first.Fills t.previousEnd

section Onward

variable {s t u : State}

theorem Onward.refl (s : State) : Onward s s :=
  ⟨.refl _, .refl _⟩

theorem Onward.trans (first : Onward s t) (second : Onward t u) : Onward s u :=
  ⟨first.previousEnd.trans second.previousEnd, first.first.trans second.first⟩

theorem Onward.of_same (token : t.token = s.token) (previousEnd : t.previousEnd = s.previousEnd) :
    Onward s t := by
  refine ⟨?_, ?_⟩
  · rw [previousEnd]
    exact .refl _
  · rw [token]
    exact .refl _

theorem Consumed.trans_onward (first : Consumed s t) (second : Onward t u) : Consumed s u :=
  first.trans_reaches second.previousEnd

theorem Onward.trans_consumed (first : Onward s t) (second : Consumed t u) : Consumed s u :=
  first.first.trans_fills second

end Onward

/-- Between the last token and the current one lies an offset beyond which no node reaches. The token behind
an import has been reached. -/
structure State.At (origin : Cursor) (edge : Nat) (s : State) : Prop where
  sound : s.Sound origin
  low : s.previousEnd.offset ≤ edge
  high : edge ≤ s.token.start
  clear : s.Clear edge
  spaced : s.Spaced origin s.token.start

/-- The module is open, no open node is an import, and the current scope lies within the scope around the
innermost one. Directly in the module it is that of the module. -/
structure State.Nested (s : State) : Prop where
  forest : s.scopes.WellFormed
  scope : s.KnowsScope s.scope
  rooted : Tree.root ∈ s.opened
  opened : ∀ id ∈ s.opened, s.Knows id
  ordinary : s.Ordinary
  inside : s.Inside s.opened s.scope
  top : s.opened.head? = some Tree.root → s.scope = Tree.moduleScope

theorem State.Nested.nonempty {s : State} (nested : s.Nested) : s.opened ≠ [] :=
  List.ne_nil_of_mem nested.rooted

theorem State.Clear.mono {s : State} {edge further : Nat} (clear : s.Clear edge) (le : edge ≤ further) :
    s.Clear further :=
  fun i n found => Nat.le_trans (clear i n found) le

theorem State.Clear.of_same {s t : State} {edge : Nat} (clear : s.Clear edge) (same : t.nodes = s.nodes) :
    t.Clear edge :=
  fun i n found => clear i n (same ▸ found)

theorem State.Spaced.mono {s : State} {edge further : Nat} (spaced : s.Spaced origin edge) (le : edge ≤ further) :
    s.Spaced origin further :=
  fun i n found isImport place passes ends => Nat.le_trans (spaced i n found isImport place passes ends) le

theorem State.Spaced.of_same {s t : State} {edge : Nat} (spaced : s.Spaced origin edge) (same : t.nodes = s.nodes) :
    t.Spaced origin edge :=
  fun i n found => spaced i n (same ▸ found)

/-- No node reaches beyond the current token. -/
theorem State.At.clear_start {s : State} {edge : Nat} (at' : s.At origin edge) : s.Clear s.token.start :=
  at'.clear.mono at'.high

theorem State.At.hasRoom {s : State} {edge : Nat} (at' : s.At origin edge) (nested : s.Nested) :
    s.HasRoom origin s.token.start :=
  ⟨fun none => absurd none nested.nonempty, at'.sound.reaches_first.marks, at'.clear_start, at'.spaced⟩

/-- Where only the place has changed, and forward. -/
theorem State.At.onward {s t : State} {edge : Nat} (at' : s.At origin edge) (same : t.nodes = s.nodes)
    (sound : t.Sound origin) (onward : Onward s t) : t.At origin (max edge t.previousEnd.offset) where
  sound := sound
  low := Nat.le_max_right ..
  high := Nat.max_le.mpr ⟨Nat.le_trans at'.high onward.first.offset_le, sound.token.offset_le⟩
  clear := (at'.clear.of_same same).mono (Nat.le_max_left ..)
  spaced := (at'.spaced.of_same same).mono onward.first.offset_le

/-! ### What parsers do -/

/-- By steps forward another state was reached in which the same nodes are open. -/
structure Follows (origin : Cursor) (s t : State) : Prop where
  steps : Steps origin s t
  onward : Onward s t
  opened : t.opened = s.opened

/-- The current scope is the same, too. -/
structure Moves (origin : Cursor) (s t : State) : Prop extends Follows origin s t where
  scope : t.scope = s.scope

section Moves

variable {s t u : State}

theorem Follows.refl (s : State) : Follows origin s s :=
  ⟨.refl, .refl s, rfl⟩

theorem Follows.trans (first : Follows origin s t) (second : Follows origin t u) : Follows origin s u :=
  ⟨first.steps.trans second.steps, first.onward.trans second.onward, second.opened.trans first.opened⟩

theorem Moves.refl (s : State) : Moves origin s s :=
  ⟨.refl s, rfl⟩

theorem Moves.trans (first : Moves origin s t) (second : Moves origin t u) : Moves origin s u :=
  ⟨first.toFollows.trans second.toFollows, second.scope.trans first.scope⟩

theorem Follows.knows (follows : Follows origin s t) {id : NodeId} (known : s.Knows id) : t.Knows id :=
  follows.steps.knows known

theorem Follows.knowsScope (follows : Follows origin s t) {scope : ScopeId} (known : s.KnowsScope scope) :
    t.KnowsScope scope :=
  follows.steps.knowsScope known

theorem Moves.nested (moves : Moves origin s t) (nested : s.Nested) : t.Nested where
  forest := moves.steps.forest nested.scope nested.forest
  scope := (moves.steps.extends nested.scope).2
  rooted := moves.opened ▸ nested.rooted
  opened id here := moves.knows (nested.opened id (moves.opened ▸ here))
  ordinary := moves.steps.ordinary nested.ordinary
  top innermost := moves.scope.trans (nested.top (moves.opened ▸ innermost))
  inside := by
    rw [moves.opened, moves.scope]
    exact moves.steps.inside nested.forest nested.scope nested.opened nested.scope nested.inside

/-- What has been read of tokens alone. -/
theorem Moves.of_sameTree (same : s.SameTree t) (onward : Onward s t) : Moves origin s t :=
  ⟨⟨.single (.read same), onward, same.opened⟩, same.scope⟩

/-- While the same nodes are open in the same scope, the scope stays level with the innermost. -/
theorem Moves.level (moves : Moves origin s t) (nested : s.Nested) (level : s.Level) : t.Level := by
  intro id m innermost found
  rw [moves.opened] at innermost
  have old := Array.getElem?_eq_getElem (nested.opened id (List.mem_of_head? innermost))
  obtain ⟨m', found', kept⟩ := moves.steps.nodesKept id.index _ old
  rw [found, Option.some.injEq] at found'
  rw [found', kept.scope, moves.scope]
  exact level id _ innermost old

end Moves

/-- From a state on, where the parser succeeds, it only takes steps, and its result and the state it ends
in satisfy `post`. It may end in another scope. -/
def Goes (origin : Cursor) (s : State) (p : Parser α) (post : α → State → Prop) : Prop :=
  ∀ edge, s.Nested → s.At origin edge → ∀ c : Context,
    match p c s with
    | .ok a t =>
      Follows origin s t ∧ t.Nested ∧ t.At origin (max edge t.previousEnd.offset) ∧ post a t
    | .error _ _ => True

/-- The parser ends in the scope in which it begins. -/
def Runs (origin : Cursor) (s : State) (p : Parser α) (post : α → State → Prop) : Prop :=
  Goes origin s p fun a t => t.scope = s.scope ∧ post a t

namespace Goes

variable {s : State} {p : Parser α} {post post' : α → State → Prop}

theorem weaken (goes : Goes origin s p post) (weaker : ∀ a t, Follows origin s t → post a t → post' a t) :
    Goes origin s p post' := by
  intro edge nested at' c
  have := goes edge nested at' c
  cases result : p c s with
  | ok a t =>
      rw [result] at this
      obtain ⟨follows, nested', there, holds⟩ := this
      exact ⟨follows, nested', there, weaker a t follows holds⟩
  | error e t => trivial

theorem pure {a : α} (holds : post a s) : Goes origin s (pure a) post := by
  intro edge nested at' c
  refine ⟨.refl s, nested, ?_, holds⟩
  rwa [Nat.max_eq_left at'.low]

theorem bind {f : α → Parser β} {mid : α → State → Prop} {last : β → State → Prop}
    (first : Goes origin s p mid)
    (rest : ∀ a t, Follows origin s t → mid a t → Goes origin t (f a) last) :
    Goes origin s (p >>= f) last := by
  intro edge nested at' c
  have head := first edge nested at' c
  rw [bind_apply]
  cases result : p c s with
  | ok a t =>
      rw [result] at head
      obtain ⟨follows, nested', there, holds⟩ := head
      have tail := rest a t follows holds _ nested' there c
      dsimp only
      cases result' : f a c t with
      | ok b u =>
          rw [result'] at tail
          obtain ⟨follows', nested'', there', holds'⟩ := tail
          refine ⟨follows.trans follows', nested'', ?_, holds'⟩
          rwa [Nat.max_assoc, Nat.max_eq_right follows'.onward.previousEnd.offset_le] at there'
      | error e u => trivial
  | error e t => trivial

/-- What is known of the place where the parser begins may be used. -/
theorem of_at (goes : s.Nested → ∀ edge, s.At origin edge → Goes origin s p post) :
    Goes origin s p post :=
  fun edge nested at' => goes nested edge at' edge nested at'

theorem ite {c : Prop} [Decidable c] {q : Parser α} (yes : c → Goes origin s p post)
    (no : ¬c → Goes origin s q post) : Goes origin s (if c then p else q) post := by
  split
  · exact yes ‹_›
  · exact no ‹_›

theorem throw (e : Failure) : Goes origin s (throw e) post :=
  fun _ _ _ _ => trivial

/-- What a parser answers that leaves the state as it is. -/
theorem bind_value {a : α} {f : α → Parser β} {last : β → State → Prop} (value : ∀ c, p c s = .ok a s)
    (rest : Goes origin s (f a) last) : Goes origin s (p >>= f) last := by
  intro edge nested at' c
  rw [bind_apply, value c]
  exact rest edge nested at' c

/-- Where the counters or the flags are changed before. -/
theorem bind_modify {f : State → State} (idle : Idle f) {rest : PUnit → Parser β}
    {last : β → State → Prop} (goes : Goes origin (f s) (rest ⟨⟩) last) :
    Goes origin s (modify f >>= rest) last := by
  intro edge nested at' c
  have moves : Moves origin s (f s) :=
    .of_sameTree (idle.same s) (.of_same (idle.token s) (idle.previousEnd s))
  have there := at'.onward (idle.same s).nodes
    (at'.sound.of_same (idle.token s) (idle.previousEnd s)) moves.onward
  rw [idle.previousEnd s, Nat.max_eq_left at'.low] at there
  have tail := goes edge (moves.nested nested) there c
  rw [bind_apply]
  show match rest ⟨⟩ c (f s) with | .ok a t => _ | .error _ _ => True
  cases result : rest ⟨⟩ c (f s) with
  | ok b t =>
      rw [result] at tail
      exact ⟨moves.toFollows.trans tail.1, tail.2⟩
  | error e t => trivial

/-- Where the counters or the flags are changed in the end. -/
theorem modify_pure {f : State → State} (idle : Idle f) {a : α} (holds : post a (f s)) :
    Goes origin s (modify f >>= fun _ => Pure.pure a) post :=
  bind_modify idle (pure holds)

end Goes

namespace Runs

variable {s : State} {p : Parser α} {post post' : α → State → Prop}

theorem goes (runs : Runs origin s p post) : Goes origin s p post :=
  Goes.weaken runs fun _ _ _ both => both.2

theorem weaken (runs : Runs origin s p post) (weaker : ∀ a t, Moves origin s t → post a t → post' a t) :
    Runs origin s p post' :=
  Goes.weaken runs fun a t follows both => ⟨both.1, weaker a t ⟨follows, both.1⟩ both.2⟩

theorem pure {a : α} (holds : post a s) : Runs origin s (pure a) post :=
  Goes.pure ⟨rfl, holds⟩

theorem bind {f : α → Parser β} {mid : α → State → Prop} {last : β → State → Prop}
    (first : Runs origin s p mid)
    (rest : ∀ a t, Moves origin s t → mid a t → Runs origin t (f a) last) :
    Runs origin s (p >>= f) last := by
  refine Goes.bind first fun a t follows both => ?_
  refine Goes.weaken (rest a t ⟨follows, both.1⟩ both.2) fun b u _ both' => ?_
  exact ⟨both'.1.trans both.1, both'.2⟩

theorem of_at (runs : s.Nested → ∀ edge, s.At origin edge → Runs origin s p post) :
    Runs origin s p post :=
  Goes.of_at runs

theorem throw (e : Failure) : Runs origin s (throw e) post :=
  Goes.throw e

theorem ite {c : Prop} [Decidable c] {q : Parser α} (yes : c → Runs origin s p post)
    (no : ¬c → Runs origin s q post) : Runs origin s (if c then p else q) post :=
  Goes.ite yes no

end Runs

/-! ### Kinds of parsers -/

/-- What parsers do to the state, where they succeed and where they fail. -/
structure Effect where
  ok : State → State → Prop
  error : State → State → Prop
  refl : ∀ s, ok s s
  trans : ∀ {s t u}, ok s t → ok t u → ok s u
  fails : ∀ s, error s s
  then_fails : ∀ {s t u}, ok s t → error t u → error s u

/-- The state stays as it is. -/
def looking : Effect where
  ok s t := t = s
  error s t := t = s
  refl _ := rfl
  trans first second := second.trans first
  fails _ := rfl
  then_fails first second := second.trans first

theorem State.SameTree.refl (s : State) : s.SameTree s :=
  ⟨rfl, rfl, rfl, rfl, rfl⟩

theorem State.SameTree.trans {s t u : State} (first : s.SameTree t) (second : t.SameTree u) :
    s.SameTree u where
  nodes := second.nodes.trans first.nodes
  scopes := second.scopes.trans first.scopes
  references := second.references.trans first.references
  opened := second.opened.trans first.opened
  scope := second.scope.trans first.scope

/-- The tree stays as it is, and the place moves forward. -/
def reading : Effect where
  ok s t := s.SameTree t ∧ ∀ origin, s.Sound origin → t.Sound origin ∧ Onward s t
  error s t := s.SameTree t
  refl s := ⟨.refl s, fun _ sound => ⟨sound, .refl s⟩⟩
  trans first second := ⟨first.1.trans second.1, fun origin sound =>
    have there := first.2 origin sound
    have further := second.2 origin there.1
    ⟨further.1, there.2.trans further.2⟩⟩
  fails s := .refl s
  then_fails first second := first.1.trans second

/-- The tree grows by steps. -/
def growing : Effect where
  ok s t := ∀ origin edge, s.Nested → s.At origin edge →
    Moves origin s t ∧ t.At origin (max edge t.previousEnd.offset)
  error _ _ := True
  refl s := fun origin edge _ at' => ⟨.refl s, by rwa [Nat.max_eq_left at'.low]⟩
  trans first second := fun origin edge nested at' => by
    obtain ⟨moves, there⟩ := first origin edge nested at'
    obtain ⟨moves', there'⟩ := second origin _ (moves.nested nested) there
    refine ⟨moves.trans moves', ?_⟩
    rwa [Nat.max_assoc, Nat.max_eq_right moves'.onward.previousEnd.offset_le] at there'
  fails _ := trivial
  then_fails _ _ := trivial

/-- Wherever the parser begins, it has no other effect. -/
class Acts (effect : Effect) (p : Parser α) : Prop where
  acts : ∀ (c : Context) (s : State),
    match p c s with
    | .ok _ t => effect.ok s t
    | .error _ t => effect.error s t

/-- The parser only looks at the state. -/
abbrev Looks (p : Parser α) : Prop :=
  Acts looking p

/-- The parser reads tokens and leaves the tree alone, also where it fails. -/
abbrev Lexical (p : Parser α) : Prop :=
  Acts reading p

/-- The parser only takes steps, wherever it begins. -/
abbrev Tame (p : Parser α) : Prop :=
  Acts growing p

/-- The parser takes steps and reads at least the current token. -/
class Eager (p : Parser α) : Prop where
  runs : ∀ origin s, Runs origin s p fun _ t => Consumed s t

section Kinds

variable {p : Parser α}

theorem Tame.runs (tame : Tame p) (s : State) : Runs origin s p fun _ _ => True := by
  intro edge nested at' c
  have acts := tame.acts c s
  cases result : p c s with
  | ok a t =>
      rw [result] at acts
      obtain ⟨moves, there⟩ := acts origin edge nested at'
      exact ⟨moves.toFollows, moves.nested nested, there, moves.scope, trivial⟩
  | error e t => trivial

theorem Tame.of_runs {post : Cursor → State → α → State → Prop}
    (runs : ∀ origin s, Runs origin s p (post origin s)) : Tame p := by
  refine ⟨fun c s => ?_⟩
  cases result : p c s with
  | ok a t =>
      intro origin edge nested at'
      have := runs origin s edge nested at' c
      rw [result] at this
      exact ⟨⟨this.1, this.2.2.2.1⟩, this.2.2.1⟩
  | error e t => trivial

theorem Tame.of_steps (runs : ∀ origin s, Runs origin s p fun _ _ => True) : Tame p :=
  Tame.of_runs runs

instance (priority := low) [looks : Looks p] : Lexical p := by
  refine ⟨fun c s => ?_⟩
  have acts := looks.acts c s
  cases result : p c s with
  | ok a t =>
      rw [result] at acts
      obtain rfl : t = s := acts
      exact reading.refl t
  | error e t =>
      rw [result] at acts
      obtain rfl : t = s := acts
      exact reading.fails t

instance (priority := low) [lexical : Lexical p] : Tame p := by
  refine ⟨fun c s => ?_⟩
  have acts := lexical.acts c s
  cases result : p c s with
  | ok a t =>
      rw [result] at acts
      intro origin edge nested at'
      obtain ⟨sound, onward⟩ := acts.2 origin at'.sound
      exact ⟨.of_sameTree acts.1 onward, at'.onward acts.1.nodes sound onward⟩
  | error e t => trivial

instance (priority := low) [eager : Eager p] : Tame p :=
  Tame.of_runs eager.runs

end Kinds

section Closure

variable {effect : Effect} {p q : Parser α} {f : α → Parser β}

instance (a : α) : Acts effect (pure a) :=
  ⟨fun _ s => effect.refl s⟩

theorem Acts.bind (first : Acts effect p) (rest : ∀ a, Acts effect (f a)) : Acts effect (p >>= f) := by
  refine ⟨fun c s => ?_⟩
  have head := first.acts c s
  rw [bind_apply]
  cases result : p c s with
  | ok a t =>
      rw [result] at head
      have tail := (rest a).acts c t
      dsimp only
      cases result' : f a c t with
      | ok b u =>
          rw [result'] at tail
          exact effect.trans head tail
      | error e u =>
          rw [result'] at tail
          exact effect.then_fails head tail
  | error e t =>
      rw [result] at head
      exact head

instance [first : Acts effect p] [rest : ∀ a, Acts effect (f a)] : Acts effect (p >>= f) :=
  first.bind rest

instance {f : α → β} [Acts effect p] : Acts effect (f <$> p) :=
  inferInstanceAs (Acts effect (p >>= fun a => pure (f a)))

instance {c : Prop} [Decidable c] [yes : Acts effect p] [no : Acts effect q] :
    Acts effect (if c then p else q) := by
  split
  · exact yes
  · exact no

instance (e : Failure) : Acts effect (throw e : Parser α) :=
  ⟨fun _ s => effect.fails s⟩

instance : Acts effect (get : Parser State) :=
  ⟨fun _ s => effect.refl s⟩

instance : Acts effect (read : Parser Context) :=
  ⟨fun _ s => effect.refl s⟩

/-- A move forward that leaves the tree alone. -/
theorem lexical_modify {f : State → State} (same : ∀ s : State, s.SameTree (f s))
    (forward : ∀ origin s, s.Sound origin → (f s).Sound origin ∧ Onward s (f s)) :
    Lexical (modify f : Parser PUnit) :=
  ⟨fun _ s => ⟨same s, fun origin sound => forward origin s sound⟩⟩

/-- A change of the counters or the flags. -/
theorem lexical_modify_idle {f : State → State} (idle : Idle f) : Lexical (modify f : Parser PUnit) :=
  lexical_modify idle.same fun _ s sound =>
    ⟨sound.of_same (idle.token s) (idle.previousEnd s), .of_same (idle.token s) (idle.previousEnd s)⟩

end Closure

namespace Runs

variable {s : State} {p : Parser α} {f : α → Parser β} {last : β → State → Prop}

theorem bind_tame [first : Tame p] (rest : ∀ a t, Moves origin s t → Runs origin t (f a) last) :
    Runs origin s (p >>= f) last :=
  (Tame.runs first s).bind fun a t moves _ => rest a t moves

theorem bind_eager [first : Eager p]
    (rest : ∀ a t, Moves origin s t → Consumed s t → Runs origin t (f a) last) :
    Runs origin s (p >>= f) last :=
  (first.runs origin s).bind rest

theorem bind_looks [first : Looks p] (rest : ∀ a, Runs origin s (f a) last) :
    Runs origin s (p >>= f) last := by
  intro edge nested at' c
  have acts := first.acts c s
  rw [bind_apply]
  cases result : p c s with
  | ok a t =>
      rw [result] at acts
      obtain rfl : t = s := acts
      exact rest a edge nested at' c
  | error e t => trivial

/-- What is read of tokens alone leaves the tree as it is. -/
theorem lexical [lexical : Lexical p] : Runs origin s p fun _ t => s.SameTree t := by
  intro edge nested at' c
  have runs := Tame.runs (p := p) inferInstance s edge nested at' c
  have acts := lexical.acts c s
  cases result : p c s with
  | ok a t =>
      rw [result] at acts runs
      exact ⟨runs.1, runs.2.1, runs.2.2.1, runs.2.2.2.1, acts.1⟩
  | error e t => trivial

/-- What a parser answers and where it ends. -/
theorem value [tame : Tame p] {a : α} {t : State} (value : ∀ c, p c s = .ok a t) :
    Runs origin s p fun b u => b = a ∧ u = t := by
  intro edge nested at' c
  have runs := Tame.runs tame s edge nested at' c
  rw [value c] at runs ⊢
  exact ⟨runs.1, runs.2.1, runs.2.2.1, runs.2.2.2.1, rfl, rfl⟩

/-- What is known in two ways is known together. -/
theorem and {post post' : α → State → Prop} (first : Runs origin s p post) (second : Runs origin s p post') :
    Runs origin s p fun a t => post a t ∧ post' a t := by
  intro edge nested at' c
  have one := first edge nested at' c
  have two := second edge nested at' c
  cases result : p c s with
  | ok a t =>
      rw [result] at one two
      exact ⟨one.1, one.2.1, one.2.2.1, one.2.2.2.1, one.2.2.2.2, two.2.2.2.2⟩
  | error e t => trivial

theorem consumed (runs : Runs origin s p fun _ t => Consumed s t ∧ True) :
    Runs origin s p fun _ t => Consumed s t :=
  runs.weaken fun _ _ _ both => both.1

/-- A parser reads something if its first part does. -/
theorem eager_bind [first : Eager p] (rest : ∀ a t, Moves origin s t → Runs origin t (f a) fun _ _ => True) :
    Runs origin s (p >>= f) fun _ t => Consumed s t :=
  bind_eager fun a t moves consumed =>
    (rest a t moves).weaken fun _ _ moves' _ => consumed.trans_onward moves'.onward

end Runs

/-! ### Eager parsers -/

section Eager

variable {p q : Parser α} {f : α → Parser β}

instance [first : Eager p] [rest : ∀ a, Tame (f a)] : Eager (p >>= f) := by
  refine ⟨fun origin s => Runs.bind_eager fun a t _ consumed => ?_⟩
  exact ((rest a).runs t).weaken fun _ _ moves _ => consumed.trans_onward moves.onward

theorem Eager.bind (first : Tame p) (rest : ∀ a, Eager (f a)) : Eager (p >>= f) := by
  refine ⟨fun origin s => Runs.bind_tame fun a t moves => ?_⟩
  exact ((rest a).runs origin t).weaken fun _ _ _ => moves.onward.trans_consumed

instance [first : Tame p] [rest : ∀ a, Eager (f a)] : Eager (p >>= f) :=
  Eager.bind first rest

instance {f : α → β} [Eager p] : Eager (f <$> p) :=
  inferInstanceAs (Eager (p >>= fun a => pure (f a)))

instance {c : Prop} [Decidable c] [yes : Eager p] [no : Eager q] : Eager (if c then p else q) := by
  split
  · exact yes
  · exact no

instance (e : Failure) : Eager (throw e : Parser α) :=
  ⟨fun _ _ => Runs.throw e⟩

end Eager

/-! ### Failures and loops -/

section Loops

variable {effect : Effect}

instance (offset : Nat) (cause : Cause) : Acts effect (failAt offset cause : Parser α) := by
  unfold failAt
  infer_instance

instance : Acts effect (unexpected : Parser α) := by
  unfold unexpected
  infer_instance

instance (what : String) : Acts effect (expected what : Parser α) := by
  unfold expected
  infer_instance

instance : Acts effect (exhausted : Parser α) := by
  unfold exhausted
  infer_instance

theorem Acts.loopUpTo {step : σ → Parser (Sum σ α)} (each : ∀ a, Acts effect (step a)) (n : Nat) (a : σ) :
    Acts effect (loopUpTo step n a) := by
  induction n generalizing a with
  | zero => exact inferInstanceAs (Acts effect exhausted)
  | succ n ih =>
      refine (each a).bind fun r => ?_
      cases r with
      | inl b => exact ih b
      | inr x => exact inferInstanceAs (Acts effect (pure x))

instance {step : σ → Parser (Sum σ α)} {init : σ} [each : ∀ a, Acts effect (step a)] :
    Acts effect (loop init step) :=
  Acts.bind inferInstance fun c => Acts.loopUpTo each c.bound init

theorem Acts.repeatWhile {step : Parser Bool} (each : Acts effect step) :
    Acts effect (repeatWhile step) := by
  unfold Grammar.repeatWhile
  infer_instance

instance {step : Parser Bool} [each : Acts effect step] : Acts effect (repeatWhile step) :=
  each.repeatWhile

end Loops

theorem Runs.fails {s : State} {p : Parser α} {post : α → State → Prop}
    (fails : ∀ c, ∃ e t, p c s = .error e t) : Runs origin s p post := by
  intro edge nested at' c
  obtain ⟨e, t, result⟩ := fails c
  rw [result]
  trivial

theorem Runs.unexpected {s : State} {post : α → State → Prop} : Runs origin s unexpected post :=
  Runs.fails fun _ => ⟨_, _, rfl⟩

theorem Runs.expected {s : State} {what : String} {post : α → State → Prop} :
    Runs origin s (expected what) post :=
  Runs.fails fun _ => ⟨_, _, rfl⟩

/-- Nothing comes after a failure. -/
theorem Runs.unexpected_bind {s : State} {f : α → Parser β} {post : β → State → Prop} :
    Runs origin s (Grammar.unexpected >>= f) post :=
  Runs.fails fun _ => ⟨_, _, rfl⟩

instance (offset : Nat) (cause : Cause) : Eager (failAt offset cause : Parser α) :=
  ⟨fun _ _ => Runs.throw _⟩

instance : Eager (unexpected : Parser α) :=
  ⟨fun _ _ => Runs.unexpected⟩

instance (what : String) : Eager (expected what : Parser α) :=
  ⟨fun _ _ => Runs.expected⟩

instance : Eager (exhausted : Parser α) :=
  ⟨fun _ _ => Runs.fails fun _ => ⟨_, _, rfl⟩⟩

/-- A loop keeps what each of its rounds keeps. -/
theorem Runs.loopUpTo {step : σ → Parser (Sum σ α)} {inv : σ → State → Prop}
    {post : α → State → Prop}
    (round : ∀ a s, inv a s → Runs origin s (step a) fun r t => r.elim (inv · t) (post · t)) (n : Nat) :
    ∀ a s, inv a s → Runs origin s (loopUpTo step n a) post := by
  induction n with
  | zero =>
      intro a s _
      exact Runs.fails fun _ => ⟨_, _, rfl⟩
  | succ n ih =>
      intro a s holds
      refine (round a s holds).bind fun r t _ known => ?_
      cases r with
      | inl b => exact ih b t known
      | inr x => exact Runs.pure known

theorem Runs.loop {step : σ → Parser (Sum σ α)} {post : α → State → Prop} {init : σ} {s : State}
    (inv : σ → State → Prop) (start : inv init s)
    (round : ∀ a s, inv a s → Runs origin s (step a) fun r t => r.elim (inv · t) (post · t)) :
    Runs origin s (loop init step) post :=
  Runs.bind_looks fun _ => Runs.loopUpTo round _ init s start

/-- A loop ends with its last round. -/
theorem Runs.repeatWhile_ends {step : Parser Bool} {s : State} {post : State → Prop}
    (round : ∀ s, Runs origin s step fun more t => more = false → post t) :
    Runs origin s (Grammar.repeatWhile step) fun _ t => post t := by
  refine Runs.loop (fun _ _ => True) trivial fun _ s _ => (round s).bind fun more t _ known => ?_
  cases more with
  | true => exact Runs.pure trivial
  | false => exact Runs.pure (known rfl)

/-- What one round of a loop keeps, all keep together. -/
theorem Runs.repeatWhile {step : Parser Bool} {s : State} (inv : State → Prop) (start : inv s)
    (round : ∀ s, inv s → Runs origin s step fun _ t => inv t) :
    Runs origin s (repeatWhile step) fun _ t => inv t := by
  refine Runs.loop (fun _ => inv) start fun _ s holds => (round s holds).bind fun more t _ kept => ?_
  cases more with
  | true => exact Runs.pure kept
  | false => exact Runs.pure kept

/-! ### Counters and flags -/

theorem idle_depth (change : Nat → Nat) : Idle fun s => { s with depth := change s.depth } :=
  ⟨fun _ => ⟨rfl, rfl, rfl, rfl, rfl⟩, fun _ => rfl, fun _ => rfl⟩

theorem idle_exporting (exporting : Bool) : Idle fun s => { s with exporting } :=
  ⟨fun _ => ⟨rfl, rfl, rfl, rfl, rfl⟩, fun _ => rfl, fun _ => rfl⟩

theorem idle_inGenerator (inGenerator : Bool) : Idle fun s => { s with inGenerator } :=
  ⟨fun _ => ⟨rfl, rfl, rfl, rfl, rfl⟩, fun _ => rfl, fun _ => rfl⟩

section Flags

variable {p : Parser α} {s : State} {post : α → State → Prop}

/-- Counting levels of nesting makes no difference to what a parser finds. -/
theorem runs_nested (inner : Runs origin { s with depth := s.depth + 1 } p post)
    (keep : ∀ a t, post a t → post a { t with depth := t.depth - 1 }) :
    Runs origin s (nested p) post := by
  refine Goes.bind_modify (idle_depth (· + 1)) (Goes.bind_value (fun _ => rfl) ?_)
  refine Runs.ite (fun _ => Runs.fails fun _ => ⟨_, _, rfl⟩) fun _ => ?_
  refine Goes.bind inner fun a t _ holds => Goes.modify_pure (idle_depth (· - 1)) ?_
  exact ⟨holds.1, keep a t holds.2⟩

instance [Tame p] : Tame (nested p) :=
  Tame.of_runs fun _ _ => runs_nested (Tame.runs inferInstance _) fun _ _ => id

instance [eager : Eager p] : Eager (nested p) :=
  ⟨fun origin _ => runs_nested (eager.runs origin _) fun _ _ => id⟩

theorem goes_withExporting {exporting : Bool} (inner : Goes origin { s with exporting } p post)
    (keep : ∀ a t, post a t → post a { t with exporting := s.exporting }) :
    Goes origin s (withExporting exporting p) post := by
  refine Goes.bind_value (fun _ => rfl) (Goes.bind_modify (idle_exporting exporting) ?_)
  refine inner.bind fun a t _ holds => ?_
  exact Goes.modify_pure (idle_exporting s.exporting) (keep a t holds)

instance {exporting : Bool} [Tame p] : Tame (withExporting exporting p) :=
  Tame.of_runs fun _ _ => goes_withExporting (Tame.runs inferInstance _) fun _ _ => id

theorem goes_withGenerator {inGenerator : Bool} (inner : Goes origin { s with inGenerator } p post)
    (keep : ∀ a t, post a t → post a { t with inGenerator := s.inGenerator }) :
    Goes origin s (withGenerator inGenerator p) post := by
  refine Goes.bind_value (fun _ => rfl) (Goes.bind_modify (idle_inGenerator inGenerator) ?_)
  refine inner.bind fun a t _ holds => ?_
  exact Goes.modify_pure (idle_inGenerator s.inGenerator) (keep a t holds)

end Flags

/-! ### Tokens -/

instance : Looks currentToken := by
  unfold currentToken
  infer_instance

instance : Looks currentKind := by
  unfold currentKind
  infer_instance

instance : Looks currentStart := by
  unfold currentStart
  infer_instance

instance : Looks previousStop := by
  unfold previousStop
  infer_instance

instance : Looks isTypescript := by
  unfold isTypescript
  infer_instance

instance : Looks allowsElements := by
  unfold allowsElements
  infer_instance

instance (mark : String) : Looks (isAt mark) := by
  unfold isAt
  infer_instance

instance (mark : String) : Looks (isTypedAt mark) := by
  unfold isTypedAt
  infer_instance

instance (word : String) : Looks (isAtWord word) := by
  unfold isAtWord
  infer_instance

instance : Looks isAtEnd := by
  unfold isAtEnd
  infer_instance

instance : Looks isAtBindingName := by
  unfold isAtBindingName
  infer_instance

theorem kind_of_namesBinding {t : Token} (names : namesBinding t = true) : t.kind = .identifier :=
  beq_iff_eq.mp (Bool.and_eq_true_iff.mp names).1

instance : Looks peek := by
  unfold peek
  infer_instance

instance : Looks peekTwo := by
  unfold peekTwo
  infer_instance

instance (mark : String) : Looks (peekIs mark) := by
  unfold peekIs
  infer_instance

instance (word : String) : Looks (peekIsWord word) := by
  unfold peekIsWord
  infer_instance

instance (again : Token → Token) [rereads : Rereads again] : Lexical (reread again) := by
  refine lexical_modify (fun _ => ⟨rfl, rfl, rfl, rfl, rfl⟩) fun origin s sound => ?_
  have first := rereads.first s.token
  refine ⟨⟨?_, ?_, rereads.covers _ sound.covers⟩, .refl _, ?_⟩
  · show origin.Reaches (again s.token).first
    rw [first]
    exact sound.reaches_first
  · show s.previousEnd.Reaches (again s.token).first
    rw [first]
    exact sound.token
  · show s.token.first.Reaches (again s.token).first
    rw [first]
    exact .refl _

/-- Counting quotes changes counters only. -/
theorem State.countQuotes_cases (s : State) : ∃ single double : Nat,
    s.countQuotes = { s with singleQuotes := single, doubleQuotes := double } := by
  unfold countQuotes
  split
  · split
    · exact ⟨_, _, rfl⟩
    · exact ⟨_, _, rfl⟩
    · exact ⟨_, _, rfl⟩
  · exact ⟨_, _, rfl⟩

theorem idle_countQuotes : Idle State.countQuotes := by
  refine ⟨fun s => ?_, fun s => ?_, fun s => ?_⟩
  all_goals obtain ⟨_, _, counted⟩ := s.countQuotes_cases
  all_goals rw [counted]
  exact ⟨rfl, rfl, rfl, rfl, rfl⟩

/-- The state behind the current token, where another is current. -/
def State.behind (s : State) (next : Token) : State :=
  { s with previousEnd := s.token.last, token := next }

/-- Behind the current token, if the next one is read there. -/
theorem State.Sound.onward_behind {s : State} {next : Token} (sound : s.Sound origin)
    (reaches : s.token.last.Reaches next.first) (covers : next.Covers) :
    (s.behind next).Sound origin ∧ Onward s (s.behind next) :=
  ⟨⟨sound.reaches_last.trans reaches, reaches, covers⟩, sound.token.trans sound.covers.fills.reaches,
    sound.covers.fills.reaches.trans reaches⟩

/-- The state in which the current token has been read. -/
def State.bumped (s : State) : State :=
  s.countQuotes.behind s.countQuotes.token.following

@[simp]
theorem bump_apply {c : Context} {s : State} : bump c s = .ok () s.bumped :=
  rfl

theorem State.sameTree_bumped (s : State) : s.SameTree s.bumped :=
  have same := idle_countQuotes.same s
  ⟨same.nodes, same.scopes, same.references, same.opened, same.scope⟩

@[simp]
theorem State.previousEnd_bumped (s : State) : s.bumped.previousEnd = s.token.last :=
  congrArg Token.last (idle_countQuotes.token s)

theorem State.Sound.bumped {s : State} (sound : s.Sound origin) :
    s.bumped.Sound origin ∧ Onward s s.bumped ∧ Consumed s s.bumped := by
  have token := idle_countQuotes.token s
  have previousEnd := idle_countQuotes.previousEnd s
  obtain ⟨there, onward⟩ := (sound.of_same token previousEnd).onward_behind (Token.reaches_read _)
    (Token.covers_read _)
  refine ⟨there, (Onward.of_same token previousEnd).trans onward, ?_⟩
  rw [Consumed, s.previousEnd_bumped]
  exact sound.covers.fills

instance : Lexical bump :=
  ⟨fun _ s => ⟨s.sameTree_bumped, fun _ sound => ⟨sound.bumped.1, sound.bumped.2.1⟩⟩⟩

/-- Reading the current token. -/
theorem runs_bump (s : State) : Runs origin s bump fun _ t => Consumed s t ∧ t = s.bumped :=
  Runs.of_at fun _ _ at' => (Runs.value (p := bump) fun _ => bump_apply).weaken fun _ _ _ same =>
    ⟨same.2 ▸ at'.sound.bumped.2.2, same.2⟩

-- From here on the state behind a token is known only by its fields.
attribute [irreducible] State.bumped

instance : Eager bump :=
  ⟨fun _ s => (runs_bump s).weaken fun _ _ _ read => read.1⟩

instance (mark : String) : Lexical (eat mark) := by
  unfold eat
  infer_instance

instance (word : String) : Lexical (eatWord word) := by
  unfold eatWord
  infer_instance

instance (mark : String) : Lexical (eatTyped mark) := by
  unfold eatTyped
  infer_instance

instance (mark : String) : Lexical (eatOptional mark) := by
  unfold eatOptional
  infer_instance

instance (word : String) : Lexical (eatOptionalWord word) := by
  unfold eatOptionalWord
  infer_instance

instance (mark : String) : Lexical (expect mark) := by
  unfold expect
  infer_instance

instance (word : String) : Lexical (expectWord word) := by
  unfold expectWord
  infer_instance

/-- A punctuator that is eaten has been the current token. -/
theorem runs_eat (s : State) (mark : String) :
    Runs origin s (eat mark) fun eaten t => if eaten then
      s.token.isPunctuator mark = true ∧ Consumed s t ∧ t = s.bumped else t = s := by
  refine Goes.bind_value (fun _ => rfl) (Runs.ite (fun here => ?_) fun _ => Runs.pure rfl)
  exact (runs_bump s).bind fun _ t _ read => Runs.pure ⟨here, read⟩

theorem runs_eatWord (s : State) (word : String) :
    Runs origin s (eatWord word) fun eaten t => if eaten then
      s.token.isKeyword word = true ∧ Consumed s t else t = s := by
  refine Goes.bind_value (fun _ => rfl) (Runs.ite (fun here => ?_) fun _ => Runs.pure rfl)
  exact (runs_bump s).bind fun _ t _ read => Runs.pure ⟨here, read.1⟩

theorem runs_expect (s : State) (mark : String) :
    Runs origin s (expect mark) fun _ t => Consumed s t ∧ s.token.isPunctuator mark = true ∧ t = s.bumped := by
  refine (runs_eat s mark).bind fun eaten t _ read => ?_
  cases eaten with
  | true => exact Runs.pure ⟨read.2.1, read.1, read.2.2⟩
  | false => exact Runs.expected

instance (mark : String) : Eager (expect mark) :=
  ⟨fun _ s => (runs_expect s mark).weaken fun _ _ _ read => read.1⟩

instance (word : String) : Eager (expectWord word) := by
  refine ⟨fun origin s => (runs_eatWord s word).bind fun eaten t _ read => ?_⟩
  cases eaten with
  | true => exact Runs.pure read.2
  | false => exact Runs.expected

theorem idle_explicitSemicolons : Idle fun s => { s with explicitSemicolons := s.explicitSemicolons + 1 } :=
  ⟨fun _ => ⟨rfl, rfl, rfl, rfl, rfl⟩, fun _ => rfl, fun _ => rfl⟩

theorem idle_insertedSemicolons : Idle fun s => { s with insertedSemicolons := s.insertedSemicolons + 1 } :=
  ⟨fun _ => ⟨rfl, rfl, rfl, rfl, rfl⟩, fun _ => rfl, fun _ => rfl⟩

instance : Lexical consumeSemicolon := by
  have explicit := lexical_modify_idle idle_explicitSemicolons
  have inserted := lexical_modify_idle idle_insertedSemicolons
  unfold consumeSemicolon
  infer_instance

/-- The state behind a token that is not invalid: no line ending is parted there. -/
theorem State.Sound.splits_bumped {s : State} (sound : s.Sound origin) (valid : s.token.kind ≠ .invalid) :
    origin.Splits s.bumped.previousEnd := by
  rw [s.previousEnd_bumped]
  exact sound.reaches_first.trans_splits (sound.covers.splits valid)

theorem kind_of_isPunctuator {t : Token} {mark : String} (here : t.isPunctuator mark = true) : t.kind = .punctuator :=
  beq_iff_eq.mp (Bool.and_eq_true_iff.mp here).1

theorem runs_modify {f : State → State} (idle : Idle f) {s : State} :
    Runs origin s (modify f : Parser PUnit) fun _ t => t = f s := by
  have := lexical_modify_idle idle
  exact (Runs.value (p := (modify f : Parser PUnit)) (t := f s) fun _ => rfl).weaken fun _ _ _ => And.right

/-- At the end of a statement a semicolon is read at most. -/
theorem runs_consumeSemicolon {s : State} (splits : origin.Splits s.previousEnd) :
    Runs origin s consumeSemicolon fun _ t => origin.Splits t.previousEnd := by
  refine Runs.of_at fun _ _ at' => (runs_eat s ";").bind fun eaten t _ read => Runs.ite (fun yes => ?_) fun no => ?_
  · rw [if_pos yes] at read
    obtain ⟨mark, -, rfl⟩ := read
    refine (runs_modify idle_explicitSemicolons).weaken fun _ _ _ is => is ▸ ?_
    exact at'.sound.splits_bumped (kind_of_isPunctuator mark ▸ TokenKind.noConfusion)
  · rw [if_neg no] at read
    subst read
    refine Runs.bind_looks fun _ => Runs.bind_looks fun _ => Runs.bind_looks fun _ => Runs.ite (fun _ => ?_) fun _ => ?_
    · exact (runs_modify idle_insertedSemicolons).weaken fun _ _ _ is => is ▸ splits
    · exact Runs.expected

end BindingRepair.Script.Grammar
