/-
# Gaps between tokens

Blanks and comments alone stand between the last token and the current one, except among the children of an
element. What is added from such a place on begins behind the gap, so the gaps behind directives and imports
stay free of names.
-/

import BindingRepair.Proofs.Grammar.Nodes

namespace BindingRepair.Script.Grammar

open Text

variable {α β : Type} {origin : Cursor}

/-- Blanks and comments alone stand between the last token and the current one. -/
def State.Adjacent (s : State) : Prop :=
  s.token.first = (skipTrivia s.previousEnd).2

theorem State.Adjacent.start_eq {s : State} (adjacent : s.Adjacent) : s.token.start = gapEnd s.previousEnd :=
  congrArg Cursor.offset adjacent

theorem State.adjacent_bumped (s : State) : s.bumped.Adjacent := by
  unfold State.bumped
  exact Token.first_readAt _ _

/-- The current token is read behind the last one if it was before. -/
def adjoining : Effect where
  ok s t := s.Adjacent → t.Adjacent
  error _ _ := True
  refl _ := id
  trans first second := second ∘ first
  fails _ := trivial
  then_fails _ _ := trivial

/-- Behind a token the parser reads the next one between blanks and comments. -/
abbrev Adjoins (p : Parser α) : Prop :=
  Acts adjoining p

section Adjoins

variable {p : Parser α}

instance (priority := low) [looks : Looks p] : Adjoins p := by
  refine ⟨fun c s => ?_⟩
  have acts := looks.acts c s
  cases result : p c s with
  | ok a t =>
      rw [result] at acts
      obtain rfl : t = s := acts
      exact id
  | error e t => trivial

/-- A change of something else. -/
theorem adjoins_modify {f : State → State} (token : ∀ s, (f s).token.first = s.token.first)
    (previousEnd : ∀ s, (f s).previousEnd = s.previousEnd) : Adjoins (modify f : Parser PUnit) := by
  refine ⟨fun _ s adjacent => ?_⟩
  rw [State.Adjacent, token, previousEnd]
  exact adjacent

theorem adjoins_modify_idle {f : State → State} (idle : Idle f) : Adjoins (modify f : Parser PUnit) :=
  adjoins_modify (fun s => by rw [idle.token]) idle.previousEnd

instance (again : Token → Token) [rereads : Rereads again] : Adjoins (reread again) :=
  adjoins_modify (fun s => rereads.first s.token) fun _ => rfl

instance : Adjoins bump := by
  refine ⟨fun c s => ?_⟩
  rw [bump_apply]
  exact fun _ => s.adjacent_bumped

instance (mark : String) : Adjoins (eat mark) := by
  unfold eat
  infer_instance

instance (word : String) : Adjoins (eatWord word) := by
  unfold eatWord
  infer_instance

instance (mark : String) : Adjoins (expect mark) := by
  unfold expect
  infer_instance

instance (word : String) : Adjoins (expectWord word) := by
  unfold expectWord
  infer_instance

instance : Adjoins consumeSemicolon := by
  have explicit := adjoins_modify_idle idle_explicitSemicolons
  have inserted := adjoins_modify_idle idle_insertedSemicolons
  unfold consumeSemicolon
  infer_instance

instance (kind : NodeKind) (start : Nat) : Adjoins (openNode kind start) :=
  ⟨fun _ _ => id⟩

instance (id : NodeId) : Adjoins (closeNode id) :=
  ⟨fun _ _ adjacent => adjacent⟩

instance (t : Token) (site : BindingSite) : Adjoins (bind t site) :=
  ⟨fun _ _ => id⟩

instance {kind : NodeKind} {start : Nat} [Adjoins p] : Adjoins (within kind start p) := by
  unfold within
  infer_instance

instance : Adjoins directives := by
  unfold directives
  infer_instance

/-- The parser goes on between blanks and comments. -/
theorem Runs.adjacent [adjoins : Adjoins p] [tame : Tame p] {s : State} (adjacent : s.Adjacent) :
    Runs origin s p fun _ t => t.Adjacent := by
  intro edge nested at' c
  have runs := tame.runs s edge nested at' c
  have acts := adjoins.acts c s
  cases result : p c s with
  | ok a t =>
      rw [result] at runs acts
      exact ⟨runs.1, runs.2.1, runs.2.2.1, runs.2.2.2.1, acts adjacent⟩
  | error e t => trivial

end Adjoins

/-! ### What is added from a place on -/

/-- The place may be taken for the origin: all imports have ended before it. -/
theorem State.At.here {s : State} {edge : Nat} (at' : s.At origin edge) : s.At s.token.first edge where
  sound := ⟨.refl _, at'.sound.token, at'.sound.covers⟩
  low := at'.low
  high := at'.high
  clear := at'.clear
  spaced i n found _ place passes ends := by
    have before : n.span.stop ≤ s.token.start := at'.clear_start i n found
    have behind : s.token.start < place.offset := passes.offset_lt
    omega

/-- All that is added begins at the current token or behind it. -/
theorem Runs.from_here {p : Parser α} [tame : Tame p] {s : State} :
    Runs origin s p fun _ t => Steps s.token.first s t := by
  intro edge nested at' c
  have runs := tame.runs s edge nested at' c
  have acts := tame.acts c s
  cases result : p c s with
  | ok a t =>
      rw [result] at runs acts
      exact ⟨runs.1, runs.2.1, runs.2.2.1, runs.2.2.2.1, (acts _ edge nested at'.here).1.steps⟩
  | error e t => trivial

/-- While no node reaches beyond what has been read this stays so. -/
theorem Runs.clear {p : Parser α} [tame : Tame p] {s : State} (clear : s.Clear s.previousEnd.offset) :
    Runs origin s p fun _ t => t.Clear t.previousEnd.offset := by
  intro edge nested at' c
  have runs := tame.runs s edge nested at' c
  have acts := tame.acts c s
  cases result : p c s with
  | ok a t =>
      rw [result] at runs acts
      have there : s.At origin s.previousEnd.offset :=
        ⟨at'.sound, Nat.le_refl _, at'.sound.token.offset_le, clear, at'.spaced⟩
      have clear' := (acts origin _ nested there).2.clear
      rw [Nat.max_eq_right runs.1.onward.previousEnd.offset_le] at clear'
      exact ⟨runs.1, runs.2.1, runs.2.2.1, runs.2.2.2.1, clear'⟩
  | error e t => trivial

/-- The names there are end before a place, and all others begin behind the gap there. -/
theorem Steps.freeGap {s t : State} {place : Cursor} (free : ∀ (i : Nat) (n : Node), s.nodes[i]? = some n →
      n.kind.isIdentifier = true → n.span.stop < place.offset) (behind : s.token.start = gapEnd place)
    (steps : Steps s.token.first s t) : FreeGap t.nodes place := by
  intro i n found identifier
  rcases steps.kept_or_marks found with ⟨m, old, kept⟩ | ⟨other, reaches, start⟩
  · have before := kept.isIdentifier.symm.trans identifier
    rw [kept.span before]
    exact .inl (free i m old before)
  · right
    rw [← start, ← behind]
    exact reaches.offset_le

/-- The nodes there are but the first have ended, and all others begin behind the gap. -/
theorem Steps.parted {s t : State} {place : Cursor} (clear : s.Clear place.offset) (opened : s.opened = [⟨0⟩])
    (behind : s.token.start = gapEnd place) (steps : Steps s.token.first s t) : Parted t.nodes place := by
  intro i n found other
  rcases steps.kept_or_marks found with ⟨m, old, kept⟩ | ⟨place', reaches, start⟩
  · left
    have closed : (⟨i⟩ : NodeId) ∉ s.opened := by
      rw [opened, List.mem_singleton]
      exact fun same => other (congrArg NodeId.index same)
    obtain ⟨-, k, found', same⟩ := steps.closed old closed
    rw [Option.some.inj (found.symm.trans found'), same]
    exact clear i m old
  · right
    rw [← start, ← behind]
    exact reaches.offset_le

/-! ### Directives -/

/-- The nodes that have come are no names and begin with no braces. -/
def State.AddsPlainly (origin : Cursor) (s t : State) : Prop :=
  ∀ (i : Nat) (n : Node), t.nodes[i]? = some n → s.nodes.size ≤ i →
    n.kind.isIdentifier = false ∧ ¬Opens origin n.span.start

theorem State.AddsPlainly.refl (s : State) : s.AddsPlainly origin s :=
  fun _ _ found outside => absurd (Array.getElem?_eq_some_iff.mp found).choose (Nat.not_lt.mpr outside)

theorem State.AddsPlainly.trans {s t u : State} (first : s.AddsPlainly origin t) (steps : Steps origin t u)
    (second : t.AddsPlainly origin u) : s.AddsPlainly origin u := by
  intro i n found outside
  by_cases known : i < t.nodes.size
  · obtain ⟨m, found', kept⟩ := steps.nodesKept i _ (Array.getElem?_eq_getElem known)
    obtain rfl := Option.some.inj (found.symm.trans found')
    rw [kept.isIdentifier, kept.start]
    exact first i _ (Array.getElem?_eq_getElem known) outside
  · exact second i n found (Nat.le_of_not_lt known)

/-- Directives have been read up to the place that has been reached, which parts no line ending. -/
structure State.ReadsDirectives (origin : Cursor) (s t : State) (last : Option Nat) : Prop where
  onward : Onward s t
  anchor : last.getD s.previousEnd.offset = t.previousEnd.offset
  consumed : ∀ o ∈ last, Consumed s t
  splits : ∀ o ∈ last, origin.Splits t.previousEnd
  unread : last = none → t = s
  adds : s.AddsPlainly origin t

theorem State.ReadsDirectives.eq {s t : State} {last : Option Nat} (reads : s.ReadsDirectives origin t last) {o : Nat}
    (here : o ∈ last) : t.previousEnd.offset = o := by
  rw [← reads.anchor, Option.mem_def.mp here, Option.getD_some]

/-- No line ending is parted behind directives, nor where there are none if it was not before. -/
theorem State.ReadsDirectives.splits_end {s t : State} {last : Option Nat} (reads : s.ReadsDirectives origin t last)
    (before : origin.Splits s.previousEnd) : origin.Splits t.previousEnd := by
  cases found : last with
  | none => exact reads.unread found ▸ before
  | some o => exact reads.splits o found

/-- No brace stands where a string begins. -/
theorem not_opens_string {s : State} (sound : s.Sound origin) (string : s.token.kind = .string) :
    ¬Opens origin s.token.start := by
  rintro ⟨rest, reaches⟩
  have same := sound.reaches_first.eq_of_offset reaches rfl
  exact sound.covers.quoted string (by rw [same]; rfl)

/-- A directive is a string, with a semicolon behind it perhaps. -/
theorem runs_directive {s : State} (string : s.token.kind = .string) :
    Runs origin s (within .statement s.token.start (bump >>= fun _ => consumeSemicolon)) fun _ t =>
      Consumed s t ∧ origin.Splits t.previousEnd ∧ s.AddsPlainly origin t := by
  refine Runs.of_at fun _ _ at' => runs_openHere ?_
  have inner : Runs origin (s.openNode .statement s.token.start) (bump >>= fun _ => consumeSemicolon) fun _ t =>
      Consumed s t ∧ origin.Splits t.previousEnd ∧ t.nodes = (s.openNode .statement s.token.start).nodes := by
    refine (runs_bump _).bind fun _ t _ ⟨consumed, is⟩ => ?_
    have splits : origin.Splits t.previousEnd := by
      rw [is, State.previousEnd_bumped]
      exact at'.sound.reaches_first.trans_splits (at'.sound.covers.splits (string ▸ TokenKind.noConfusion))
    refine (Runs.lexical.and (runs_consumeSemicolon splits)).weaken fun _ _ moves ⟨same, splits⟩ => ?_
    exact ⟨consumed.trans_onward moves.onward, splits, same.nodes.trans (is ▸ (State.sameTree_bumped _).nodes)⟩
  refine Completes.bind inner fun _ t _ known => Completes.closeNode_pure known.1 fun _ => ⟨known.2.1, ?_⟩
  intro i n found outside
  obtain ⟨m, old, changed⟩ := modify_cases found
  have same : n.kind = m.kind ∧ n.span.start = m.span.start := by
    rcases changed with ⟨-, rfl⟩ | ⟨-, rfl⟩
    · exact ⟨rfl, rfl⟩
    · exact ⟨rfl, rfl⟩
  rw [known.2.2] at old
  rcases appendNode_cases old with ⟨-, new⟩ | ⟨known, -⟩
  · rw [same.1, same.2, new.kind, new.span]
    exact ⟨rfl, not_opens_string at'.sound string⟩
  · exact absurd known (Nat.not_lt.mpr outside)

theorem runs_directives (s : State) :
    Runs origin s directives fun last t => s.ReadsDirectives origin t last := by
  refine Runs.loop (fun last t => s.ReadsDirectives origin t last) ⟨.refl s, rfl, fun _ none => ?_, fun _ none => ?_,
    fun _ => rfl, .refl s⟩ fun last t known => ?_
  · exact absurd none (Option.not_mem_none _)
  · exact absurd none (Option.not_mem_none _)
  refine Goes.bind_value (fun _ => rfl) (Runs.ite (fun _ => Runs.pure known) fun string => ?_)
  refine Runs.bind_looks fun next => Runs.ite (fun _ => ?_) fun _ => Runs.pure known
  refine Goes.bind_value (fun _ => rfl) (Runs.bind (runs_directive (by simpa using string)) fun _ u moves read => ?_)
  refine Goes.bind_value (fun _ => rfl) (Runs.pure ?_)
  obtain ⟨consumed, splits, adds⟩ := read
  exact ⟨known.onward.trans moves.onward, rfl, fun _ _ => known.onward.trans_consumed consumed, fun _ _ => splits,
    fun none => (by cases none), known.adds.trans moves.steps adds⟩

instance : Tame directives :=
  Tame.of_runs fun _ => runs_directives

/-! ### Behind imports -/

/-- The parser ends behind a token that begins behind all imports and the gaps there. -/
class Concludes (p : Parser α) : Prop where
  runs : ∀ origin s, Runs origin s p fun _ t => t.Spaced origin t.previousEnd.offset

section Concludes

variable {p q : Parser α} {f : α → Parser β}

/-- The parser reads the current token. -/
theorem Concludes.of_read [tame : Tame p] (reads : ∀ c s, ∃ a t, p c s = .ok a t ∧ t.nodes = s.nodes ∧
    t.previousEnd = s.token.last) : Concludes p := by
  refine ⟨fun origin s edge nested at' c => ?_⟩
  have runs := tame.runs s edge nested at' c
  obtain ⟨a, t, result, same, last⟩ := reads c s
  rw [result] at runs ⊢
  refine ⟨runs.1, runs.2.1, runs.2.2.1, runs.2.2.2.1, ?_⟩
  show t.Spaced origin t.previousEnd.offset
  rw [last]
  exact (at'.spaced.of_same same).mono at'.sound.covers.fills.reaches.offset_le

instance : Concludes bump :=
  .of_read fun _ s => ⟨_, _, bump_apply, s.sameTree_bumped.nodes, s.previousEnd_bumped⟩

instance [tame : Tame p] [rest : ∀ a, Concludes (f a)] : Concludes (p >>= f) :=
  ⟨fun origin _ => Runs.bind_tame fun a t _ => (rest a).runs origin t⟩

instance [first : Concludes p] {b : β} : Concludes (p >>= fun _ => pure b) :=
  ⟨fun origin s => (first.runs origin s).bind fun _ _ _ spaced => Runs.pure spaced⟩

instance {c : Prop} [Decidable c] [yes : Concludes p] [no : Concludes q] : Concludes (if c then p else q) := by
  split
  · exact yes
  · exact no

instance (what : String) : Concludes (expected what : Parser α) :=
  ⟨fun _ _ => Runs.expected⟩

instance : Concludes (exhausted : Parser α) :=
  ⟨fun _ _ => Runs.fails fun _ => ⟨_, _, rfl⟩⟩

instance [inner : Concludes p] : Concludes (nested p) :=
  ⟨fun origin _ => runs_nested (inner.runs origin _) fun _ _ => id⟩

theorem Concludes.repeatWhile {step : Parser Bool}
    (round : ∀ origin s, Runs origin s step fun more t => more = false → t.Spaced origin t.previousEnd.offset) :
    Concludes (repeatWhile step) :=
  ⟨fun origin _ => Runs.repeatWhile_ends (round origin)⟩

instance {kind : NodeKind} [NodeKind.Bare kind] [inner : Concludes p] [eager : Eager p] :
    Concludes (currentStart >>= fun start => within kind start p) := by
  refine ⟨fun origin s => Goes.bind_value (fun _ => rfl) (Runs.weaken (runs_openHere ?_) fun _ _ _ both => both.2)⟩
  refine Completes.bind ((eager.runs origin _).and (inner.runs origin _)) fun a t _ known => ?_
  refine Completes.of_within fun nested inside _ _ => Completes.closeNode_pure known.1 fun _ => ?_
  exact inside.spaced_closeNode nested known.2

end Concludes

end BindingRepair.Script.Grammar
