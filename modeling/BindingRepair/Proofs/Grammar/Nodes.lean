/-
# Nodes, scopes and names

What the operations on the tree do. A node is open while its parts are read: `Completes` says of a parser
that begins inside a node that it completes the node. Scopes are left for the one around them, and a name
becomes a node when its token is read or has been read.
-/

import BindingRepair.Proofs.Grammar.Runs

namespace BindingRepair.Script.Grammar

open Text

variable {α β : Type} {origin : Cursor}

/-! ### Nodes -/

/-- A kind that names no nodes, no scopes and no offsets. -/
class NodeKind.Bare (kind : NodeKind) : Prop where
  plain : kind.isIdentifier = false
  untouched : kind.isUntouched = true
  named : kind.named = []
  body : kind.bodyScope? = none
  placed : ∀ origin, kind.Placed origin
  ordinary : kind.isImport = false

instance : NodeKind.Bare .statement := ⟨rfl, rfl, rfl, rfl, fun _ => trivial, rfl⟩

instance : NodeKind.Bare .block := ⟨rfl, rfl, rfl, rfl, fun _ => trivial, rfl⟩

instance : NodeKind.Bare .element := ⟨rfl, rfl, rfl, rfl, fun _ => trivial, rfl⟩

instance : NodeKind.Bare .classNode := ⟨rfl, rfl, rfl, rfl, fun _ => trivial, rfl⟩

instance : NodeKind.Bare .typeDeclaration := ⟨rfl, rfl, rfl, rfl, fun _ => trivial, rfl⟩

instance (isDefault : Bool) : NodeKind.Bare (.exportDeclaration isDefault) :=
  ⟨rfl, rfl, rfl, rfl, fun _ => trivial, rfl⟩

instance (kind : VarKind) : NodeKind.Bare (.varDeclaration kind) :=
  ⟨rfl, rfl, rfl, rfl, fun _ => trivial, rfl⟩

instance : NodeKind.Bare (.declarator {}) := ⟨rfl, rfl, rfl, rfl, fun _ => trivial, rfl⟩

instance (arrow : Bool) : NodeKind.Bare (.function { arrow }) :=
  ⟨rfl, rfl, rfl, rfl, fun _ _ none => absurd none (Option.not_mem_none _), rfl⟩

theorem NodeKind.Bare.bodiless {kind : NodeKind} [bare : NodeKind.Bare kind] : kind.body? = none := by
  have none := bare.body
  rwa [kind.bodyScope?_eq, Option.map_eq_none_iff] at none

/-- Only functions with bodies in braces have to fit them in. -/
theorem NodeKind.Bare.fits (kind : NodeKind) [bare : NodeKind.Bare kind] (nodes : Array Node) (id : NodeId) :
    ∀ body ∈ kind.body?, body.Fits origin nodes id := by
  intro body here
  rw [bare.bodiless] at here
  exact absurd here (Option.not_mem_none _)

theorem State.admits_of_bare (s : State) (kind : NodeKind) [bare : NodeKind.Bare kind] :
    s.Admits origin kind where
  plain := bare.plain
  untouched := bare.untouched
  named id known := by simp [bare.named] at known
  body scope known := by simp [bare.body] at known
  placed := bare.placed origin

/-- Something in the module is open. -/
def State.Deep (s : State) : Prop :=
  s.opened.head? ≠ some Tree.root

theorem Moves.deep {s t : State} (moves : Moves origin s t) (deep : s.Deep) : t.Deep := by
  rw [State.Deep, moves.opened]
  exact deep

/-- The node `id` is the innermost open one. It was opened in the state `outer` and begins at `start`. -/
structure InNode (origin : Cursor) (outer : State) (id : NodeId) (start : Cursor) (s : State) : Prop where
  steps : Steps origin outer s
  reaches : origin.Reaches start
  opened : s.opened = id :: outer.opened
  once : id ∉ outer.opened
  scope : s.scope = outer.scope
  node : ∃ n, s.nodes[id.index]? = some n ∧ n.kind.isIdentifier = false ∧ n.scope = outer.scope ∧
    n.parent = outer.opened.head? ∧ n.span.start = start.offset

namespace InNode

variable {outer s t : State} {id : NodeId} {start : Cursor}

theorem after (within : InNode origin outer id start s) (steps : Steps origin s t) (opened : t.opened = s.opened)
    (scope : t.scope = s.scope) : InNode origin outer id start t := by
  obtain ⟨n, found, plain, nodeScope, parent, nodeStart⟩ := within.node
  obtain ⟨m, found', kept⟩ := steps.nodesKept id.index n found
  exact ⟨within.steps.trans steps, within.reaches, opened.trans within.opened, within.once, scope.trans within.scope,
    m, found', kept.isIdentifier.trans plain, kept.scope.trans nodeScope, kept.parent.trans parent,
    kept.start.trans nodeStart⟩

theorem moves (within : InNode origin outer id start s) (moves : Moves origin s t) :
    InNode origin outer id start t :=
  within.after moves.steps moves.opened moves.scope

theorem holds (within : InNode origin outer id start s) : s.Holds id :=
  have ⟨n, found, plain, _⟩ := within.node
  ⟨n, found, plain⟩

theorem level (within : InNode origin outer id start s) : s.Level := by
  intro other n innermost found
  obtain ⟨m, found', -, nodeScope, -⟩ := within.node
  rw [within.opened, List.head?_cons, Option.some.injEq] at innermost
  rw [← innermost, found', Option.some.injEq] at found
  rw [← found, nodeScope, within.scope]

theorem innermost (within : InNode origin outer id start s) : s.opened.head? = some id := by
  rw [within.opened, List.head?_cons]

theorem start_eq (within : InNode origin outer id start s) {n : Node} (found : s.nodes[id.index]? = some n) :
    n.span.start = start.offset := by
  obtain ⟨m, found', -, -, -, nodeStart⟩ := within.node
  rw [found', Option.some.injEq] at found
  rw [← found, nodeStart]

/-- The node may end where something of it has been read. -/
theorem mayEnd (within : InNode origin outer id start s) (filled : start.Fills s.previousEnd)
    (clear : s.Clear s.previousEnd.offset) : s.MayEnd origin id s.previousEnd.offset where
  innermost := within.innermost
  held := within.holds
  marks := (within.reaches.trans filled.reaches).marks
  clear := clear
  covers n found := by
    rw [within.start_eq found, ← within.reaches.ends_eq]
    exact filled.offset_lt_or

theorem opened_closeNode (within : InNode origin outer id start s) : (s.closeNode id).opened = outer.opened := by
  simp [State.closeNode, State.closeNodeAt, within.opened]

/-- The module was open before. -/
theorem deep (within : InNode origin outer id start s) (nested : outer.Nested) : s.Deep := by
  intro innermost
  rw [within.innermost, Option.some.injEq] at innermost
  exact within.once (innermost ▸ nested.rooted)

theorem nested (within : InNode origin outer id start s) (nested : outer.Nested) : s.Nested where
  forest := within.steps.forest nested.scope nested.forest
  scope := (within.steps.extends nested.scope).2
  rooted := by
    rw [within.opened]
    exact List.mem_cons_of_mem _ nested.rooted
  opened other here := by
    rw [within.opened] at here
    rcases List.mem_cons.mp here with rfl | here
    · exact within.holds.knows
    · exact within.steps.knows (nested.opened other here)
  ordinary := within.steps.ordinary nested.ordinary
  inside other n innermost found := by
    rw [within.level other n innermost found]
    exact s.scopes.isWithin_self s.scope
  top innermost := absurd innermost (within.deep nested)

end InNode

/-- No node becomes an import when one is changed. -/
theorem State.Spaced.modify {s t : State} {edge k : Nat} {change : Node → Node} (spaced : s.Spaced origin edge)
    (nodes : t.nodes = s.nodes.modify k change)
    (ordinary : ∀ n, s.nodes[k]? = some n → (change n).kind.isImport = false) : t.Spaced origin edge := by
  intro i n found isImport
  rw [nodes] at found
  obtain ⟨m, old, ⟨rfl, rfl⟩ | ⟨-, rfl⟩⟩ := modify_cases found
  · rw [ordinary m old] at isImport
    cases isImport
  · exact spaced i n old isImport

theorem InNode.spaced_closeNode {outer s : State} {id : NodeId} {start : Cursor} {edge : Nat}
    (within : InNode origin outer id start s) (nested : outer.Nested) (spaced : s.Spaced origin edge) :
    (s.closeNode id).Spaced origin edge := by
  apply spaced.modify (s.nodes_closeNodeAt id _)
  exact (within.nested nested).ordinary id (List.mem_of_head? within.innermost)

/-- From a state inside a node on, where the parser succeeds, it completes the node, which then covers all
that has been read since its beginning. -/
def Completes (origin : Cursor) (outer : State) (id : NodeId) (start : Cursor) (s : State) (p : Parser α)
    (post : α → State → Prop) : Prop :=
  ∀ edge, outer.Nested → InNode origin outer id start s → s.At origin edge →
    edge ≤ max start.offset s.previousEnd.offset → ∀ c : Context,
    match p c s with
    | .ok a t =>
      Steps origin outer t ∧ Onward s t ∧ t.opened = outer.opened ∧ t.scope = outer.scope ∧
        t.At origin t.previousEnd.offset ∧ start.Fills t.previousEnd ∧ post a t
    | .error _ _ => True

namespace Completes

variable {outer s : State} {id : NodeId} {start : Cursor} {p : Parser α} {f : α → Parser β}
  {post : α → State → Prop} {last : β → State → Prop}

theorem bind {mid : α → State → Prop} (first : Runs origin s p mid)
    (rest : ∀ a t, Moves origin s t → mid a t → Completes origin outer id start t (f a) last) :
    Completes origin outer id start s (p >>= f) last := by
  intro edge nested within at' low c
  have head := first edge (within.nested nested) at' c
  rw [bind_apply]
  cases result : p c s with
  | ok a t =>
      rw [result] at head
      obtain ⟨follows, -, there, scope, holds⟩ := head
      have moves : Moves origin s t := ⟨follows, scope⟩
      have further := moves.onward.previousEnd.offset_le
      have low' : max edge t.previousEnd.offset ≤ max start.offset t.previousEnd.offset := by omega
      have tail := rest a t moves holds _ nested (within.moves moves) there low' c
      dsimp only
      cases result' : f a c t with
      | ok b u =>
          rw [result'] at tail
          exact ⟨tail.1, moves.onward.trans tail.2.1, tail.2.2⟩
      | error e u => trivial
  | error e t => trivial

theorem bind_tame [first : Tame p]
    (rest : ∀ a t, Moves origin s t → Completes origin outer id start t (f a) last) :
    Completes origin outer id start s (p >>= f) last :=
  bind (Tame.runs first s) fun a t moves _ => rest a t moves

theorem bind_eager [first : Eager p]
    (rest : ∀ a t, Moves origin s t → Consumed s t → Completes origin outer id start t (f a) last) :
    Completes origin outer id start s (p >>= f) last :=
  bind (first.runs origin s) rest

theorem bind_value {a : α} (value : ∀ c, p c s = .ok a s)
    (rest : Completes origin outer id start s (f a) last) :
    Completes origin outer id start s (p >>= f) last := by
  intro edge nested within at' low c
  rw [bind_apply, value c]
  exact rest edge nested within at' low c

theorem bind_looks [first : Looks p] (rest : ∀ a, Completes origin outer id start s (f a) last) :
    Completes origin outer id start s (p >>= f) last := by
  intro edge nested within at' low c
  have acts := first.acts c s
  rw [bind_apply]
  cases result : p c s with
  | ok a t =>
      rw [result] at acts
      obtain rfl : t = s := acts
      exact rest a edge nested within at' low c
  | error e t => trivial

theorem ite {c : Prop} [Decidable c] {q : Parser α} (yes : c → Completes origin outer id start s p post)
    (no : ¬c → Completes origin outer id start s q post) :
    Completes origin outer id start s (if c then p else q) post := by
  split
  · exact yes ‹_›
  · exact no ‹_›

theorem fails (fails : ∀ c, ∃ e t, p c s = .error e t) : Completes origin outer id start s p post := by
  intro edge nested within at' low c
  obtain ⟨e, t, result⟩ := fails c
  rw [result]
  trivial

/-- What is known inside the node may be used. -/
theorem of_within (closes : outer.Nested → InNode origin outer id start s → ∀ edge, s.At origin edge →
    Completes origin outer id start s p post) : Completes origin outer id start s p post :=
  fun edge nested within at' low => closes nested within edge at' edge nested within at' low

/-- The node gets another kind. -/
theorem setKind {kind : NodeKind} {rest : Unit → Parser β} (ordinary : kind.isImport = false)
    (bodies : ∀ body ∈ kind.body?, body.Fits origin s.nodes id) (admitted : s.Admits origin kind)
    (closes : Steps origin s (s.setKind id kind) →
      Completes origin outer id start (s.setKind id kind) (rest ()) last) :
    Completes origin outer id start s (Grammar.setKind id kind >>= rest) last := by
  intro edge nested within at' low c
  have step : Steps origin s (s.setKind id kind) :=
    .single (.setKind id kind within.holds ordinary bodies admitted)
  have spaced : (s.setKind id kind).Spaced origin s.token.start :=
    at'.spaced.modify (s.nodes_setKind id kind) fun _ _ => ordinary
  have tail := closes step edge nested (within.after step rfl rfl)
    ⟨at'.sound.of_same rfl rfl, at'.low, at'.high, at'.clear.setKind id kind, spaced⟩ low c
  rw [bind_apply]
  show match rest () c (s.setKind id kind) with | .ok a t => _ | .error _ _ => True
  cases result : rest () c (s.setKind id kind) with
  | ok b t =>
      rw [result] at tail
      exact ⟨tail.1, ⟨tail.2.1.previousEnd, tail.2.1.first⟩, tail.2.2⟩
  | error e t => trivial

/-- The node is complete when something of it has been read. -/
theorem closeNode {last : Unit → State → Prop} (filled : start.Fills s.previousEnd)
    (holds : Steps origin s (s.closeNode id) → last () (s.closeNode id)) :
    Completes origin outer id start s (Grammar.closeNode id) last := by
  intro edge nested within at' low c
  have before := filled.reaches.offset_le
  have clear : s.Clear s.previousEnd.offset := at'.clear.mono (by omega)
  have step : Steps origin s (s.closeNode id) := .single (.closeNode id _ (within.mayEnd filled clear))
  have clear' : (s.closeNode id).Clear s.previousEnd.offset := by
    apply clear.modify (s.nodes_closeNodeAt id _)
    intro n found
    dsimp only
    rw [within.start_eq found]
    exact Nat.max_le.mpr ⟨Nat.le_refl _, before⟩
  refine ⟨within.steps.trans step, .of_same rfl rfl, within.opened_closeNode, within.scope, ?_, filled, holds step⟩
  exact ⟨at'.sound.of_same rfl rfl, Nat.le_refl _, at'.sound.token.offset_le, clear', within.spaced_closeNode nested at'.spaced⟩

/-- The node is an import and complete when all of it has been read, up to the next token. -/
theorem closeImport {node : ImportNode} {last : Unit → State → Prop} (filled : start.Fills s.previousEnd)
    (begins : start.offset < origin.ends) (admitted : s.Admits origin (.importDeclaration node))
    (reads : s.ReadsImport origin id node s.previousEnd.offset) (next : gapEnd s.previousEnd ≤ s.token.start)
    (holds : ∀ t, last () t) :
    Completes origin outer id start s (Grammar.setKind id (.importDeclaration node) >>= fun _ => Grammar.closeNode id)
      last := by
  intro edge nested within at' low c
  have before := filled.reaches.offset_le
  have reaches : origin.Reaches s.previousEnd := within.reaches.trans filled.reaches
  have clear : s.Clear s.previousEnd.offset := at'.clear.mono (by omega)
  let u := s.setKind id (.importDeclaration node)
  have once : id ∉ s.opened.tail := by
    rw [within.opened]
    exact within.once
  have begins' (n : Node) (found : s.nodes[id.index]? = some n) : n.span.start < origin.ends := by
    rw [within.start_eq found]
    exact begins
  have step : Steps origin s (u.closeNode id) :=
    .single (.closeImport id node _ admitted reads begins' once (within.mayEnd filled clear))
  have closed (n : Node) (found : u.nodes[id.index]? = some n) :
      max s.previousEnd.offset n.span.start = s.previousEnd.offset := by
    obtain ⟨m, old, ⟨-, rfl⟩ | ⟨other, -⟩⟩ := modify_cases found
    · dsimp only
      rw [within.start_eq old, Nat.max_eq_left before]
    · exact absurd rfl other
  have clear' : (u.closeNode id).Clear s.previousEnd.offset :=
    (clear.setKind id _).modify (u.nodes_closeNodeAt id _) fun n found => Nat.le_of_eq (closed n found)
  have spaced : (u.closeNode id).Spaced origin s.token.start := by
    intro i n found isImport place passes ends
    obtain ⟨m, here, ⟨rfl, rfl⟩ | ⟨other, rfl⟩⟩ := modify_cases found
    · rw [passes.reaches.eq_of_offset reaches (ends.trans (closed m here))]
      exact next
    · obtain ⟨m, old, ⟨is, -⟩ | ⟨-, rfl⟩⟩ := modify_cases here
      · exact absurd is other
      · exact at'.spaced i n old isImport place passes ends
  have opened : (u.closeNode id).opened = outer.opened := by
    simp [u, State.closeNode, State.closeNodeAt, State.setKind, within.opened]
  refine ⟨within.steps.trans step, .of_same rfl rfl, opened, within.scope, ?_, filled, holds _⟩
  exact ⟨at'.sound.of_same rfl rfl, Nat.le_refl _, at'.sound.token.offset_le, clear', spaced⟩

/-- The result stays what it is while the node is completed. -/
theorem closeNode_pure {b : β} (filled : start.Fills s.previousEnd)
    (holds : Steps origin s (s.closeNode id) → last b (s.closeNode id)) :
    Completes origin outer id start s (Grammar.closeNode id >>= fun _ => pure b) last := by
  intro edge nested within at' low c
  have closed : Completes origin outer id start s (Grammar.closeNode id) fun _ => last b :=
    closeNode filled holds
  rw [bind_apply]
  exact closed edge nested within at' low c

end Completes

theorem State.node_openNode (s : State) (kind : NodeKind) (start : Nat) :
    (s.openNode kind start).nodes[s.nodes.size]? =
      some { kind, span := Span.emptyAt start, scope := s.scope, parent := s.opened.head?
             children := if s.opened.head? = some ⟨s.nodes.size⟩ then #[⟨s.nodes.size⟩] else #[] } := by
  unfold openNode addNode
  dsimp only
  rw [getElem?_appendNode, if_pos rfl]

theorem State.Clear.appendNode {s : State} {edge : Nat} (clear : s.Clear edge) {kind : NodeKind}
    {span : Span} {scope : ScopeId} (ends : span.stop ≤ edge) :
    (s.addNode kind span scope).Clear edge := by
  intro i n found
  rw [addNode, getElem?_appendNode] at found
  split at found
  · rw [← Option.some.inj found]
    exact ends
  · split at found
    · obtain ⟨m, old, rfl⟩ := Option.map_eq_some_iff.mp found
      exact clear i m old
    · exact clear i n found

theorem State.Spaced.appendNode {s : State} {edge : Nat} (spaced : s.Spaced origin edge) {kind : NodeKind}
    {span : Span} {scope : ScopeId} (ordinary : kind.isImport = false) :
    (s.addNode kind span scope).Spaced origin edge := by
  intro i n found isImport
  rcases appendNode_cases found with ⟨-, new⟩ | ⟨-, m, old, same⟩
  · rw [new.kind, ordinary] at isImport
    cases isImport
  · rw [same.span]
    exact spaced i m old (same.kind ▸ isImport)

/-- A node is opened at a place where all others have ended, and completed by the rest. -/
theorem runs_openNode {s : State} {kind : NodeKind} {start : Cursor} {f : NodeId → Parser α}
    {post : α → State → Prop} (ordinary : kind.isImport = false) (bodiless : kind.body? = none)
    (admitted : s.Admits origin kind) (reaches : origin.Reaches start) (before : start.Reaches s.token.first)
    (clear : s.Clear start.offset) (spaced : s.Spaced origin start.offset)
    (body : Completes origin s ⟨s.nodes.size⟩ start (s.openNode kind start.offset) (f ⟨s.nodes.size⟩) post) :
    Runs origin s (openNode kind start.offset >>= f) fun a t => start.Fills t.previousEnd ∧ post a t := by
  intro edge nested at' c
  have room : s.HasRoom origin start.offset :=
    ⟨fun none => absurd none nested.nonempty, reaches.marks, clear, spaced⟩
  have step : Steps origin s (s.openNode kind start.offset) :=
    .single (.openNode kind _ ordinary bodiless admitted room)
  have inside : InNode origin s ⟨s.nodes.size⟩ start (s.openNode kind start.offset) :=
    ⟨step, reaches, rfl, fun here => Nat.lt_irrefl _ (nested.opened _ here), rfl, _,
      s.node_openNode kind start.offset, admitted.plain, rfl, rfl, rfl⟩
  have clear' : (s.openNode kind start.offset).Clear (max start.offset s.previousEnd.offset) :=
    State.Clear.appendNode (clear.mono (Nat.le_max_left ..)) (Nat.le_max_left ..)
  have there : (s.openNode kind start.offset).At origin (max start.offset s.previousEnd.offset) :=
    ⟨at'.sound.of_same rfl rfl, Nat.le_max_right ..,
      Nat.max_le.mpr ⟨before.offset_le, at'.sound.token.offset_le⟩, clear', at'.spaced.appendNode ordinary⟩
  have tail := body _ nested inside there (Nat.le_refl _) c
  rw [bind_apply]
  show match f ⟨s.nodes.size⟩ c (s.openNode kind start.offset) with | .ok a t => _ | .error _ _ => True
  cases result : f ⟨s.nodes.size⟩ c (s.openNode kind start.offset) with
  | ok a t =>
      rw [result] at tail
      obtain ⟨steps, onward, opened, scope, there', filled, holds⟩ := tail
      have moves : Moves origin s t := ⟨⟨steps, ⟨onward.previousEnd, onward.first⟩, opened⟩, scope⟩
      have high : edge ≤ t.token.start := Nat.le_trans at'.high moves.onward.first.offset_le
      refine ⟨moves.toFollows, moves.nested nested, ?_, scope, filled, holds⟩
      exact ⟨there'.sound, Nat.le_max_right .., Nat.max_le.mpr ⟨high, there'.high⟩,
        there'.clear.mono (Nat.le_max_right ..), there'.spaced⟩
  | error e t => trivial

/-- A node is opened at the current token. -/
theorem runs_openHere {s : State} {kind : NodeKind} [bare : NodeKind.Bare kind] {f : NodeId → Parser α}
    {post : α → State → Prop}
    (body : Completes origin s ⟨s.nodes.size⟩ s.token.first (s.openNode kind s.token.start)
      (f ⟨s.nodes.size⟩) post) :
    Runs origin s (openNode kind s.token.start >>= f) fun a t => Consumed s t ∧ post a t :=
  Runs.of_at fun _ _ at' => runs_openNode bare.ordinary bare.bodiless (s.admits_of_bare kind)
    at'.sound.reaches_first (.refl _) at'.clear_start at'.spaced body

/-- A node is opened behind its first tokens, at the first of them. -/
theorem runs_openBehind {s : State} {kind : NodeKind} [bare : NodeKind.Bare kind] {head : Parser β} [Lexical head]
    {f : β → NodeId → Parser α} {post : α → State → Prop}
    (body : ∀ b t, Moves origin s t → Completes origin t ⟨t.nodes.size⟩ s.token.first
      (t.openNode kind s.token.start) (f b ⟨t.nodes.size⟩) post) :
    Runs origin s (head >>= fun b => openNode kind s.token.start >>= f b)
      fun a t => Consumed s t ∧ post a t :=
  Runs.of_at fun _ _ at' => Runs.lexical.bind fun b t moves same =>
    runs_openNode bare.ordinary bare.bodiless (t.admits_of_bare kind) at'.sound.reaches_first
      moves.onward.first (at'.clear_start.of_same same.nodes) (at'.spaced.of_same same.nodes) (body b t moves)

/-- The parser takes steps where something in the module is open. -/
class Sheltered (p : Parser α) : Prop where
  runs : ∀ origin s, s.Deep → Runs origin s p fun _ _ => True

/-- There it also reads at least the current token. -/
class Busy (p : Parser α) : Prop where
  runs : ∀ origin s, s.Deep → Runs origin s p fun _ t => Consumed s t

section Sheltered

variable {p q : Parser α} {f : α → Parser β}

instance (priority := low) [Tame p] : Sheltered p :=
  ⟨fun _ s _ => Tame.runs inferInstance s⟩

instance [first : Sheltered p] [rest : ∀ a, Sheltered (f a)] : Sheltered (p >>= f) :=
  ⟨fun origin s deep => (first.runs origin s deep).bind fun a t moves _ => (rest a).runs origin t (moves.deep deep)⟩

instance {c : Prop} [Decidable c] [yes : Sheltered p] [no : Sheltered q] : Sheltered (if c then p else q) := by
  split
  · exact yes
  · exact no

instance {step : Parser Bool} [each : Sheltered step] : Sheltered (repeatWhile step) := by
  refine ⟨fun origin s deep => ?_⟩
  refine (Runs.repeatWhile State.Deep deep fun t deep' => ?_).weaken fun _ _ _ _ => trivial
  exact (each.runs origin t deep').weaken fun _ _ moves _ => moves.deep deep'

instance {exporting : Bool} [inner : Sheltered p] : Sheltered (withExporting exporting p) :=
  ⟨fun origin _ deep => goes_withExporting (inner.runs origin _ deep) fun _ _ => id⟩

instance (priority := low) [eager : Eager p] : Busy p :=
  ⟨fun origin s _ => eager.runs origin s⟩

instance [first : Eager p] [rest : ∀ a, Sheltered (f a)] : Busy (p >>= f) :=
  ⟨fun origin _ deep => Runs.eager_bind fun a t moves => (rest a).runs origin t (moves.deep deep)⟩

instance {c : Prop} [Decidable c] [yes : Busy p] [no : Busy q] : Busy (if c then p else q) := by
  split
  · exact yes
  · exact no

/-- What is open inside a node is the node. -/
theorem runs_within_busy {s : State} {kind : NodeKind} [NodeKind.Bare kind] [inner : Busy p] :
    Runs origin s (within kind s.token.start p) fun _ t => Consumed s t := by
  refine Runs.consumed (runs_openHere (Completes.of_within fun nested inside _ _ => ?_))
  refine Completes.bind (inner.runs origin _ (inside.deep nested)) fun a t _ consumed => ?_
  exact Completes.closeNode_pure consumed fun _ => trivial

instance {kind : NodeKind} [NodeKind.Bare kind] [Busy p] : Eager (currentStart >>= fun start => within kind start p) :=
  ⟨fun _ _ => Goes.bind_value (fun _ => rfl) runs_within_busy⟩

end Sheltered

/-! ### Scopes -/

theorem State.knowsScope_enterScope (s : State) (kind : ScopeKind) :
    (s.enterScope kind).KnowsScope ⟨s.scopes.size⟩ := by
  simp [KnowsScope, enterScope, ScopeForest.add, ScopeForest.modify, ScopeForest.size]

/-- A scope is entered inside the current one, but not directly in the module. -/
theorem goes_enterScope {s : State} {kind : ScopeKind} {f : ScopeId → Parser α} {post : α → State → Prop}
    (deep : s.Deep) (rest : Goes origin (s.enterScope kind) (f ⟨s.scopes.size⟩) post) :
    Goes origin s (enterScope kind >>= f) post := by
  intro edge nested at' c
  have step : Steps origin s (s.enterScope kind) := .single (.enterScope kind)
  have follows : Follows origin s (s.enterScope kind) := ⟨step, .of_same rfl rfl, rfl⟩
  have nested' : (s.enterScope kind).Nested := by
    have grows := s.scopes.extends_add kind nested.scope
    refine ⟨nested.forest.add kind nested.scope, s.knowsScope_enterScope kind, nested.rooted, nested.opened,
      nested.ordinary, fun id n innermost found => ?_, fun innermost => absurd innermost deep⟩
    refine ScopeForest.isWithin_trans (nested.forest.add kind nested.scope)
      (ScopeForest.isWithin_add kind nested.scope nested.forest) ?_
    rw [grows.isWithin_eq nested.forest nested.scope]
    exact nested.inside id n innermost found
  have tail := rest edge nested' ⟨at'.sound.of_same rfl rfl, at'.low, at'.high, at'.clear, at'.spaced⟩ c
  rw [bind_apply]
  show match f ⟨s.scopes.size⟩ c (s.enterScope kind) with | .ok a t => _ | .error _ _ => True
  cases result : f ⟨s.scopes.size⟩ c (s.enterScope kind) with
  | ok a t =>
      rw [result] at tail
      exact ⟨follows.trans tail.1, tail.2⟩
  | error e t => trivial

/-- The scope that is left in the end is the one that was current before. -/
theorem runs_keepingScope {s : State} {p : Parser α} {post : α → State → Prop}
    (inner : Goes origin s p post) (keep : ∀ a t, post a t → post a { t with scope := s.scope }) :
    Runs origin s (keepingScope p) post := by
  intro edge nested at' c
  have head := inner edge nested at' c
  show match (p >>= fun result => modify (fun t => { t with scope := s.scope }) >>= fun _ => pure result) c s
    with | .ok a t => _ | .error _ _ => True
  rw [bind_apply]
  cases result : p c s with
  | ok a t =>
      rw [result] at head
      obtain ⟨follows, nested', there, holds⟩ := head
      have known := follows.knowsScope nested.scope
      have inside : t.Inside t.opened s.scope := by
        rw [follows.opened]
        exact follows.steps.inside nested.forest nested.scope nested.opened nested.scope nested.inside
      have top (innermost : t.opened.head? = some Tree.root) : s.scope = Tree.moduleScope :=
        nested.top (follows.opened ▸ innermost)
      have back : Steps origin t { t with scope := s.scope } := .single (.leaveScope s.scope known inside)
      refine ⟨⟨follows.steps.trans back, ⟨follows.onward.previousEnd, follows.onward.first⟩, follows.opened⟩,
        ⟨nested'.forest, known, nested'.rooted, nested'.opened, nested'.ordinary, inside, top⟩,
        ⟨there.sound.of_same rfl rfl, there.low, there.high, there.clear, there.spaced⟩, rfl, keep a t holds⟩
  | error e t => trivial

theorem runs_inScope {s : State} {kind : ScopeKind} {p : Parser α} {post : α → State → Prop} (deep : s.Deep)
    (inner : Goes origin (s.enterScope kind) p post)
    (keep : ∀ a t, post a t → post a { t with scope := s.scope }) : Runs origin s (inScope kind p) post :=
  runs_keepingScope (goes_enterScope deep inner) keep

instance {kind : ScopeKind} {p : Parser α} [inner : Sheltered p] : Sheltered (inScope kind p) :=
  ⟨fun origin _ deep => runs_inScope deep (Runs.goes (inner.runs origin _ deep)) fun _ _ => id⟩

/-! ### Identifiers -/

theorem State.At.takes {s : State} {edge : Nat} (at' : s.At origin edge) (nested : s.Nested)
    (identifier : s.token.kind = .identifier) : s.Takes origin s.token :=
  ⟨identifier, at'.sound.covers, at'.sound.reaches_first, at'.hasRoom nested⟩

/-- A token that was current before other tokens were read. -/
theorem State.Takes.of_same {s t : State} {token : Token} (takes : s.Takes origin token)
    (same : s.SameTree t) : t.Takes origin token where
  identifier := takes.identifier
  covers := takes.covers
  reaches := takes.reaches
  room := ⟨fun none => same.nodes ▸ takes.room.rooted (same.opened ▸ none), takes.room.marks,
    takes.room.clear.of_same same.nodes, takes.room.spaced.of_same same.nodes⟩

/-- One step adds the node of a token. -/
structure Adds (origin : Cursor) (token : Token) (s u : State) : Prop where
  step : Steps origin s u
  nodes : ∃ i scope, u.nodes = (s.addNode (.identifier i) token.span scope).nodes
  opened : u.opened = s.opened
  scope : u.scope = s.scope
  token : u.token = s.token
  previousEnd : u.previousEnd = s.previousEnd

section Adds

variable {s u : State} {token : Token}

theorem adds_refer (takes : s.Takes origin token) : Adds origin token s (s.refer token) :=
  ⟨.single (.refer token takes), ⟨_, _, rfl⟩, rfl, rfl, rfl, rfl⟩

theorem adds_bind (takes : s.Takes origin token) {site : BindingSite} (level : site.kind = .var → s.Level) :
    Adds origin token s (s.bind token site) :=
  ⟨.single (.bind token site takes level), ⟨_, _, rfl⟩, rfl, rfl, rfl, rfl⟩

namespace Adds

variable (adds : Adds origin token s u)
include adds

theorem onward : Onward s u :=
  .of_same adds.token adds.previousEnd

theorem clear {edge : Nat} (clear : s.Clear edge) (le : token.stop ≤ edge) : u.Clear edge := by
  obtain ⟨i, scope, nodes⟩ := adds.nodes
  exact State.Clear.of_same (State.Clear.appendNode clear le) nodes

theorem spaced {edge : Nat} (spaced : s.Spaced origin edge) : u.Spaced origin edge := by
  obtain ⟨i, scope, nodes⟩ := adds.nodes
  exact State.Spaced.of_same (State.Spaced.appendNode spaced rfl) nodes

theorem moves : Moves origin s u :=
  ⟨⟨adds.step, adds.onward, adds.opened⟩, adds.scope⟩

/-- The token has been read before. -/
theorem runs {p : Parser α} {a : α} {post : α → State → Prop} (value : ∀ c, p c s = .ok a u)
    (behind : token.stop ≤ s.previousEnd.offset) (holds : post a u) : Runs origin s p post := by
  intro edge nested at' c
  rw [value c]
  refine ⟨adds.moves.toFollows, adds.moves.nested nested, ?_, adds.scope, holds⟩
  rw [adds.previousEnd, Nat.max_eq_left at'.low]
  exact ⟨at'.sound.of_same adds.token adds.previousEnd, adds.previousEnd ▸ at'.low, adds.token ▸ at'.high,
    adds.clear at'.clear (Nat.le_trans behind at'.low), adds.token ▸ adds.spaced at'.spaced⟩

end Adds

/-- The token is the current one, which is read now. -/
theorem Adds.runs_bump (adds : Adds origin s.token s u) {p : Parser α} {a : α} {f : α → Parser β}
    {last : β → State → Prop} (value : ∀ c, p c s = .ok a u)
    (rest : ∀ t, Moves origin s t → Consumed s t → Steps origin u t → Runs origin t (f a) last) :
    Runs origin s (p >>= fun a => bump >>= fun _ => f a) last := by
  intro edge nested at' c
  have sound := at'.sound.of_same adds.token adds.previousEnd
  obtain ⟨there, onward, consumed⟩ := sound.bumped
  have same := u.sameTree_bumped
  have moves : Moves origin s u.bumped := adds.moves.trans (.of_sameTree same onward)
  have last : u.bumped.previousEnd = s.token.last := by rw [u.previousEnd_bumped, adds.token]
  have consumed' : Consumed s u.bumped := by rwa [Consumed, ← adds.token]
  have stop : s.token.stop = u.bumped.previousEnd.offset := by rw [last]; rfl
  have clear : u.bumped.Clear (max edge u.bumped.previousEnd.offset) :=
    (adds.clear (at'.clear.mono (Nat.le_max_left ..)) (stop ▸ Nat.le_max_right ..)).of_same same.nodes
  have high : edge ≤ u.bumped.token.start := Nat.le_trans at'.high moves.onward.first.offset_le
  have at'' : u.bumped.At origin (max edge u.bumped.previousEnd.offset) :=
    ⟨there, Nat.le_max_right .., Nat.max_le.mpr ⟨high, there.token.offset_le⟩, clear,
      ((adds.spaced at'.spaced).of_same same.nodes).mono moves.onward.first.offset_le⟩
  have tail := rest u.bumped moves consumed' (.single (.read same)) _ (moves.nested nested) at'' c
  rw [bind_apply, value c]
  dsimp only
  rw [bind_apply, bump_apply]
  dsimp only
  cases result : f a c u.bumped with
  | ok b t =>
      rw [result] at tail
      obtain ⟨follows, nested', there', scope, holds⟩ := tail
      rw [Nat.max_assoc, Nat.max_eq_right follows.onward.previousEnd.offset_le] at there'
      exact ⟨moves.toFollows.trans follows, nested', there', scope.trans moves.scope, holds⟩
  | error e t => trivial

end Adds

/-- A name that has been read before refers to a binding. -/
theorem runs_refer {s : State} {token : Token} (takes : s.Takes origin token)
    (behind : token.stop ≤ s.previousEnd.offset) : Runs origin s (refer token) fun _ t => t = s.refer token :=
  (adds_refer takes).runs (fun _ => rfl) behind rfl

/-- A name that is read now refers to a binding. -/
theorem runs_refer_bump {s : State} (identifier : s.token.kind = .identifier) {p : Parser α}
    {post : α → State → Prop} (rest : ∀ t, Moves origin s t → Consumed s t → Runs origin t p post) :
    Runs origin s (refer s.token >>= fun _ => bump >>= fun _ => p) post :=
  Runs.of_at fun nested _ at' =>
    (adds_refer (at'.takes nested identifier)).runs_bump (fun _ => rfl) fun t moves consumed _ =>
      rest t moves consumed

theorem State.endsName_bind (s : State) (t : Token) (site : BindingSite) :
    EndsName (s.bind t site).nodes ⟨s.nodes.size⟩ t.stop := by
  unfold EndsName State.bind State.addNode
  dsimp only
  rw [getElem?_appendNode, if_pos rfl]
  exact ⟨_, rfl, rfl, rfl⟩

/-- The node is a name that is declared in the current scope. -/
def State.Declares (s : State) (id : NodeId) : Prop :=
  DeclaresIn s.nodes s.scope id

theorem State.Declares.after {s t : State} {id : NodeId} (declares : s.Declares id) (steps : Steps origin s t)
    (scope : t.scope = s.scope) : t.Declares id := by
  rw [State.Declares, scope]
  exact steps.nodesKept.declaresIn declares

theorem State.Declares.knows {s : State} {id : NodeId} (declares : s.Declares id) : s.Knows id :=
  have ⟨_, _, _, found, _⟩ := declares
  (Array.getElem?_eq_some_iff.mp found).choose

/-- All names but those of `var` declarations are declared in the current scope. -/
theorem State.declares_bind (s : State) (t : Token) {site : BindingSite} (other : site.kind ≠ .var) :
    (s.bind t site).Declares ⟨s.nodes.size⟩ := by
  unfold State.Declares DeclaresIn State.bind State.addNode
  dsimp only
  rw [getElem?_appendNode, if_pos rfl, if_neg other]
  exact ⟨_, _, _, rfl, rfl, rfl, rfl⟩

/-- A name that has been read before is declared. -/
theorem runs_bind {s : State} {token : Token} {site : BindingSite} (takes : s.Takes origin token)
    (behind : token.stop ≤ s.previousEnd.offset) (level : site.kind = .var → s.Level) :
    Runs origin s (bind token site) fun id u =>
      EndsName u.nodes id token.stop ∧ u.previousEnd = s.previousEnd ∧ (site.kind ≠ .var → u.Declares id) :=
  (adds_bind takes level).runs (fun _ => rfl) behind ⟨s.endsName_bind token site, rfl, s.declares_bind token⟩

/-- The current token is declared. -/
theorem runs_bindCurrent {s : State} {site : BindingSite} (identifier : s.token.kind = .identifier)
    (level : site.kind = .var → s.Level) :
    Runs origin s (bindCurrent site) fun id u =>
      Consumed s u ∧ EndsName u.nodes id s.token.stop ∧ (site.kind ≠ .var → u.Declares id) := by
  refine Goes.bind_value (fun _ => rfl) (Runs.of_at fun nested _ at' => ?_)
  refine (adds_bind (at'.takes nested identifier) level).runs_bump (fun _ => rfl) fun t moves consumed steps => ?_
  refine Runs.pure ⟨consumed, steps.nodesKept.endsName (s.endsName_bind s.token site), fun other => ?_⟩
  exact (s.declares_bind s.token other).after steps moves.scope

theorem runs_bindName {s : State} {kind : BindingKind} (names : namesBinding s.token = true)
    (level : kind = .var → s.Level) :
    Runs origin s (bindName kind) fun id u =>
      Consumed s u ∧ EndsName u.nodes id s.token.stop ∧ (kind ≠ .var → u.Declares id) :=
  runs_bindCurrent (kind_of_namesBinding names) level

/-- Where a name stands it is declared. -/
theorem Runs.ifNamed {s : State} {kind : BindingKind} {f : NodeId → Parser α} {p : Parser α}
    {post : α → State → Prop} (level : kind = .var → s.Level)
    (yes : ∀ id t, Moves origin s t → Consumed s t → Runs origin t (f id) post)
    (no : Runs origin s p post) :
    Runs origin s (do if ← isAtBindingName then f (← bindName kind) else p) post := by
  refine Goes.bind_value (fun _ => rfl) (Runs.ite (fun names => ?_) fun _ => no)
  exact (runs_bindName names level).bind fun id t moves both => yes id t moves both.1

end BindingRepair.Script.Grammar
