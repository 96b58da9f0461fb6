/-
# Parsed trees grow by steps

The grammar as a whole takes only steps, so the tree of a source is what steps have made of the state
before the first token.
-/

import BindingRepair.Proofs.Grammar.Items

set_option synthInstance.maxSize 20000
set_option synthInstance.maxHeartbeats 100000

namespace BindingRepair.Script

open Text

namespace Grammar

variable {origin : Cursor} {rules : Rules}

instance : Looks importDeclares := by
  unfold importDeclares
  infer_instance

section Rule

variable [orderly : Orderly rules]

theorem runs_declarationOf {s : State} (word : s.token.kind = .identifier) (text : String) :
    Runs origin s (declarationOf rules text) fun _ _ => True := by
  unfold declarationOf
  split
  · refine Runs.bind_looks fun _ => Runs.ite (fun _ => ?_) fun _ => Runs.pure trivial
    exact (runs_importDeclaration word).bind fun _ _ _ _ => Runs.pure trivial
  all_goals exact Tame.runs inferInstance s

instance : Tame (bareItem rules) := by
  have plain : Tame (do
      if ← isAt "@" then
        decorators rules
        rules .bareItem
      else statement rules) := inferInstance
  refine Tame.of_steps fun origin s => Goes.bind_value (fun _ => rfl) (Runs.ite (fun word => ?_) fun _ => ?_)
  · refine (runs_declarationOf (beq_iff_eq.mp (Bool.and_eq_true_iff.mp word).1) _).bind fun _ t _ _ => ?_
    exact Runs.ite (fun _ => Runs.pure trivial) fun _ => plain.runs t
  · exact plain.runs s

instance orderly_rule : Orderly (rule rules) where
  item := inferInstanceAs (Tame (nested (rules .bareItem)))
  bareItem := inferInstanceAs (Tame (bareItem rules))
  type := inferInstanceAs (Tame (nested (typeExpression rules)))
  typeOperand := inferInstanceAs (Tame (nested (typeOperand rules)))
  element := inferInstanceAs (Eager (nested (element rules)))
  elementEnd := inferInstanceAs (Concludes (nested (element rules)))
  assignment noIn := inferInstanceAs (Evaluates (nested (assignment rules noIn)))
  binary precedence noIn := inferInstanceAs (Evaluates (binary rules precedence noIn))
  unary := inferInstanceAs (Evaluates (nested (unary rules)))
  callee := inferInstanceAs (Evaluates (callee rules))
  construction := inferInstanceAs (Evaluates (construction rules))
  target _ _ _ level := runs_nested (runs_bindingTarget level) fun _ _ => id

end Rule

/-- However deep constructs may be around each other, reading them takes only steps. -/
theorem orderly_derive (n : Nat) : Orderly (derive n) := by
  induction n with
  | zero =>
      have tame {r : Rule} : Tame (derive 0 r) := inferInstanceAs (Tame exhausted)
      have evaluates : Evaluates exhausted := ⟨fun _ _ => Runs.fails fun _ => ⟨_, _, rfl⟩⟩
      exact {
        item := tame
        bareItem := tame
        type := tame
        typeOperand := tame
        element := inferInstanceAs (Eager exhausted)
        elementEnd := inferInstanceAs (Concludes exhausted)
        assignment := fun _ => evaluates
        binary := fun _ _ => evaluates
        unary := evaluates
        callee := evaluates
        construction := evaluates
        target := fun _ _ _ _ => Runs.fails fun _ => ⟨_, _, rfl⟩ }
  | succ n ih => exact orderly_rule

/-! ### The module -/

/-- The end of a text is a place in it. -/
theorem marks_ends (place : Cursor) : place.Marks place.ends :=
  ⟨⟨place.ends, []⟩, ⟨place.rest, (List.append_nil _).symm, rfl⟩, rfl⟩

theorem ends_start (source : List Char) : (Cursor.start source).ends = byteLength source :=
  Nat.zero_add _

theorem marks_hashbangEnd? (source : List Char) :
    ∀ o ∈ hashbangEnd? source, (Cursor.start source).Marks o := by
  intro o found
  unfold hashbangEnd? at found
  split at found
  · rename_i rest
    obtain rfl := Option.mem_some.mp found
    let line (c : Char) : Bool := c != '\n' && c != '\r'
    have parts : '#' :: '!' :: rest =
        ('#' :: '!' :: rest).takeWhile line ++ ('#' :: '!' :: rest).dropWhile line :=
      List.takeWhile_append_dropWhile.symm
    exact ⟨⟨_, _⟩, ⟨_, parts, (Nat.zero_add _).symm⟩, rfl⟩
  · exact absurd found (Option.not_mem_none _)

/-- The offsets of a module are those of places. -/
theorem State.admits_module {source : List Char} (s : State) {directivesEnd : Option Nat}
    (placed : ∀ o ∈ directivesEnd, (Cursor.start source).Marks o) :
    s.Admits (Cursor.start source) (.module { hashbangEnd := hashbangEnd? source, directivesEnd }) where
  plain := rfl
  untouched := rfl
  named id here := by cases here
  body scope here := by cases here
  placed := ⟨marks_hashbangEnd? source, placed⟩

/-- In front of the first token, where the module is open. -/
def openedState (source : List Char) : State :=
  (initialState source).openNode (.module { hashbangEnd := hashbangEnd? source, directivesEnd := none }) 0

theorem steps_openedState (source : List Char) :
    Steps (Cursor.start source) (initialState source) (openedState source) := by
  refine .single (.openNode _ 0 rfl rfl (State.admits_module _ fun _ none => absurd none (Option.not_mem_none _)) ?_)
  exact ⟨fun _ => rfl, ⟨_, .refl _, rfl⟩, fun i n found => (by cases found), fun i n found => (by cases found)⟩

/-- The first node is the only one in front of the first token. -/
theorem eq_of_openedState {source : List Char} {i : Nat} {n : Node} (found : (openedState source).nodes[i]? = some n) :
    i = 0 ∧ n.kind.isImport = false ∧ n.span.stop = 0 := by
  cases i with
  | zero =>
      obtain rfl := Option.some.inj found
      exact ⟨rfl, rfl, rfl⟩
  | succ i => cases found

theorem nested_openedState (source : List Char) : (openedState source).Nested where
  forest := ScopeForest.wellFormed_single .module
  scope := Nat.zero_lt_one
  rooted := List.mem_singleton.mpr rfl
  opened id here := by
    rw [List.mem_singleton.mp here]
    exact Nat.zero_lt_one
  ordinary _ _ _ found := (eq_of_openedState found).2.1
  inside id n innermost found := by
    obtain rfl := Option.some.inj innermost
    obtain rfl := Option.some.inj found
    exact ScopeForest.isWithin_self _ _
  top _ := rfl

theorem at_openedState (source : List Char) : (openedState source).At (Cursor.start source) 0 where
  sound := ⟨Token.reaches_read _, Token.reaches_read _, Token.covers_read _⟩
  low := Nat.le_refl _
  high := Nat.zero_le _
  clear i n found := Nat.le_of_eq (eq_of_openedState found).2.2
  spaced i n found isImport := by
    rw [(eq_of_openedState found).2.1] at isImport
    cases isImport

/-- The directives of a module end in front of a gap between its nodes. -/
def DirectivesEnd (source : List Char) (nodes : Array Node) (offset : Nat) : Prop :=
  ∃ place, (Cursor.start source).Fills place ∧ (Cursor.start source).Splits place ∧ place.offset = offset ∧
    Parted nodes place

theorem DirectivesEnd.marks {source : List Char} {nodes : Array Node} {offset : Nat}
    (ends : DirectivesEnd source nodes offset) : (Cursor.start source).Marks offset := by
  obtain ⟨place, fills, -, rfl, -⟩ := ends
  exact fills.reaches.marks

theorem DirectivesEnd.congr {source : List Char} {nodes nodes' : Array Node} {offset : Nat}
    (ends : DirectivesEnd source nodes offset) (same : ∀ i, i ≠ 0 → nodes'[i]? = nodes[i]?) :
    DirectivesEnd source nodes' offset := by
  obtain ⟨place, fills, splits, is, parted⟩ := ends
  exact ⟨place, fills, splits, is, parted.congr same⟩

/-- A complete tree: all nodes are closed, and the first covers the source. The others begin at the first token
or behind it, and behind the directives. -/
structure Finished (source : List Char) (s : State) : Prop where
  steps : Steps (Cursor.start source) (initialState source) s
  opened : s.opened = []
  root : ∃ n m, s.nodes[0]? = some n ∧ n.kind = .module m ∧ n.span = ⟨0, byteLength source⟩ ∧
    m.hashbangEnd = hashbangEnd? source ∧ ∀ o ∈ m.directivesEnd, DirectivesEnd source s.nodes o
  first : Parted s.nodes (Cursor.start source)

/-- The statements of a module and where its directives end. -/
def moduleItems (c : Context) : Parser (Option Nat) := do
  let directivesEnd ← directives
  repeatWhile do
    if ← isAtEnd then return false
    derive (callBound c) .item
    return true
  return directivesEnd

instance (c : Context) : Tame (moduleItems c) := by
  have := orderly_derive (callBound c)
  unfold moduleItems
  infer_instance

/-- Behind the directives of a module all nodes begin behind the gap there. -/
theorem runs_moduleItems {source : List Char} (c : Context) :
    Runs (Cursor.start source) (openedState source) (moduleItems c) fun last t =>
      (∀ o ∈ last, DirectivesEnd source t.nodes o) ∧ Parted t.nodes (Cursor.start source) := by
  have clear := (at_openedState source).clear
  have first : (openedState source).token.start = gapEnd (Cursor.start source) := Token.start_read _
  have adjacent : (openedState source).Adjacent := Token.first_readAt _ _
  refine Runs.weaken (Runs.and ?_ Runs.from_here) fun last t _ both => ⟨both.1, both.2.parted clear rfl first⟩
  have := orderly_derive (callBound c)
  refine (((runs_directives _).and (Runs.adjacent adjacent)).and (Runs.clear clear)).bind ?_
  intro last t toItems ⟨⟨directives, adjacent⟩, clear⟩
  refine Runs.from_here.bind fun _ u _ steps => Runs.pure fun o here => ?_
  refine ⟨t.previousEnd, ?_, directives.splits o here, directives.eq here, ?_⟩
  · exact (Token.reaches_read _).trans_fills (directives.consumed o here)
  · exact steps.parted clear toItems.opened adjacent.start_eq

theorem moduleBody_apply (source : List Char) (c : Context) :
    moduleBody source c (initialState source) = (do
      let directivesEnd ← moduleItems c
      closeNodeAt ⟨0⟩ (byteLength source)
      setKind ⟨0⟩ (.module { hashbangEnd := hashbangEnd? source, directivesEnd })) c (openedState source) := by
  simp only [moduleItems, bind_assoc, pure_bind]
  rfl

theorem finished_of_moduleBody {source : List Char} {c : Context} {s : State}
    (result : moduleBody source c (initialState source) = .ok () s) : Finished source s := by
  have runs := runs_moduleItems c 0 (nested_openedState source) (at_openedState source) c
  rw [moduleBody_apply, bind_apply] at result
  cases items : moduleItems c c (openedState source) with
  | error e t =>
      rw [items] at result
      cases result
  | ok directivesEnd t =>
      rw [items] at result runs
      obtain ⟨follows, nested, at', -, ends, first⟩ := runs
      cases result
      obtain ⟨n, found, kept⟩ := follows.steps.nodesKept 0 _ (State.node_openNode (initialState source) _ 0)
      have start : n.span.start = 0 := kept.start
      have held : t.Holds ⟨0⟩ := ⟨n, found, kept.isIdentifier⟩
      have stop : (Cursor.start source).Marks (byteLength source) := ends_start source ▸ marks_ends _
      have room : t.token.start ≤ byteLength source := by
        rw [← ends_start]
        exact at'.sound.reaches_first.marks.le_ends
      have mayEnd : t.MayEnd (Cursor.start source) ⟨0⟩ (byteLength source) := by
        refine ⟨by rw [follows.opened]; rfl, held, stop, at'.clear_start.mono room, fun m found' => ?_⟩
        obtain rfl := Option.some.inj (found.symm.trans found')
        rw [start, ends_start]
        exact (Nat.eq_zero_or_pos _).symm.imp_right Eq.symm
      have closed : Steps (Cursor.start source) t (t.closeNodeAt ⟨0⟩ (byteLength source)) :=
        .single (.closeNode _ _ mayEnd)
      have last := closed.holds held
      have complete := Step.setKind ⟨0⟩ _ last rfl (fun _ none => absurd none (Option.not_mem_none _))
        (State.admits_module _ fun o here => (ends o here).marks)
      have same (i : Nat) (other : i ≠ 0) : ((t.closeNodeAt ⟨0⟩ (byteLength source)).setKind ⟨0⟩
          (.module { hashbangEnd := hashbangEnd? source, directivesEnd })).nodes[i]? = t.nodes[i]? := by
        simp [State.setKind, State.closeNodeAt, Array.getElem?_modify, other.symm]
      refine ⟨((steps_openedState source).trans follows.steps).trans (closed.tail complete), ?_, ?_, first.congr same⟩
      · simp [State.setKind, State.closeNodeAt, follows.opened, openedState, State.openNode, initialState]
      · let root : Node := { n with
          kind := .module { hashbangEnd := hashbangEnd? source, directivesEnd }
          span := { n.span with stop := max (byteLength source) n.span.start } }
        refine ⟨root, _, by simp [State.setKind, State.closeNodeAt, Array.getElem?_modify, found, root], rfl, ?_, rfl,
          fun o here => (ends o here).congr same⟩
        simp [root, start]

theorem State.knowsScope_initialState (source : List Char) :
    (initialState source).KnowsScope (initialState source).scope :=
  Nat.zero_lt_one

/-! ### What a state holds exists -/

/-- All nodes and scopes that the state refers to exist, the current scope among them. -/
structure State.Coherent (s : State) : Prop where
  wellScoped : WellScoped s.nodes s.scopes s.references
  scope : s.KnowsScope s.scope

theorem State.coherent_initialState (source : List Char) : (initialState source).Coherent where
  wellScoped := {
    forest := ScopeForest.wellFormed_single .module
    inRange := nofun
    isReference := nofun }
  scope := State.knowsScope_initialState source

theorem State.Coherent.closeNodeAt {s : State} (coherent : s.Coherent) (id : NodeId) (stop : Nat) :
    (s.closeNodeAt id stop).Coherent := by
  refine ⟨?_, coherent.scope⟩
  simp only [State.closeNodeAt]
  refine coherent.wellScoped.modify id ?_ ?_
  · exact fun n _ inRange => ⟨inRange.scope, inRange.children, inRange.named, inRange.body⟩
  · exact fun _ _ _ _ _ => rfl

theorem State.Coherent.setKind {s : State} (coherent : s.Coherent) {id : NodeId} {kind : NodeKind} (held : s.Holds id)
    (admitted : s.Admits origin kind) : (s.setKind id kind).Coherent := by
  refine ⟨?_, coherent.scope⟩
  simp only [State.setKind]
  refine coherent.wellScoped.modify id ?_ ?_
  · exact fun n _ inRange => ⟨inRange.scope, inRange.children, admitted.named, admitted.body⟩
  · intro n i found identifier _
    obtain ⟨m, found', plain⟩ := held
    rw [found, Option.some.injEq] at found'
    rw [← found', identifier] at plain
    cases plain

theorem Step.coherent {s t : State} (step : Step origin s t) (coherent : s.Coherent) : t.Coherent := by
  have wellScoped := coherent.wellScoped
  refine ⟨?_, (step.extends coherent.scope).2⟩
  cases step with
  | read same =>
      rw [same.nodes, same.scopes, same.references]
      exact wellScoped
  | openNode kind start ordinary bodiless admitted room =>
      exact wellScoped.appendNode _ _ _ _ coherent.scope admitted.named admitted.body
  | closeNode id stop => exact (coherent.closeNodeAt id stop).wellScoped
  | setKind id kind held ordinary bodies admitted => exact (coherent.setKind held admitted).wellScoped
  | closeImport id node stop admitted reads begins once mayEnd =>
      exact ((coherent.setKind mayEnd.held admitted).closeNodeAt id stop).wellScoped
  | refer token =>
      refine WellScoped.refer (wellScoped.appendNode _ _ _ _ coherent.scope ?_ ?_) ?_
      · exact fun c here => absurd here (NodeKind.not_mem_named_identifier _ c)
      · exact fun scope here => absurd here (NodeKind.bodyScope?_identifier _ scope)
      unfold IsReference
      rw [getElem?_appendNode, if_pos rfl]
      exact ⟨_, _, rfl, rfl, rfl⟩
  | bind token site =>
      unfold State.bind State.addNode
      refine (wellScoped.appendNode _ _ _ _ ?_ ?_ ?_).of_sameShape (ScopeForest.sameShape_declare ..)
      rotate_left
      · exact fun c here => absurd here (NodeKind.not_mem_named_identifier _ c)
      · exact fun scope here => absurd here (NodeKind.bodyScope?_identifier _ scope)
      split
      · exact s.scopes.varScope_lt coherent.scope
      · exact coherent.scope
  | enterScope kind => exact wellScoped.addScope kind coherent.scope
  | leaveScope scope known => exact wellScoped

theorem Steps.coherent {s t : State} (steps : Steps origin s t) (coherent : s.Coherent) : t.Coherent := by
  induction steps with
  | refl => exact coherent
  | tail _ step ih => exact step.coherent ih

/-- Nothing that is read bears the mark of an edit. -/
theorem Step.untouched {s t : State} (step : Step origin s t) (untouched : Untouched s.nodes) :
    Untouched t.nodes := by
  cases step with
  | read same => rwa [same.nodes]
  | openNode kind start ordinary bodiless admitted room => exact untouched.appendNode _ _ _ admitted.untouched
  | closeNode id stop => exact untouched.modify _ fun _ plain => plain
  | setKind id kind held ordinary bodies admitted => exact untouched.modify _ fun _ _ => admitted.untouched
  | closeImport id node stop admitted =>
      have kinds : Untouched (s.setKind id (.importDeclaration node)).nodes :=
        untouched.modify _ fun _ _ => admitted.untouched
      exact kinds.modify _ fun _ plain => plain
  | refer token => exact untouched.appendNode _ _ _ rfl
  | bind token site => exact untouched.appendNode _ _ _ rfl
  | enterScope kind => exact untouched
  | leaveScope scope known => exact untouched

theorem Steps.untouched {s t : State} (steps : Steps origin s t) (untouched : Untouched s.nodes) :
    Untouched t.nodes := by
  induction steps with
  | refl => exact untouched
  | tail _ step ih => exact step.untouched ih

end Grammar

open Grammar

/-- The tree of a source is what steps have made of the state before the first token. -/
theorem finished_of_parse {source : String} {dialect : Dialect} {t : Tree}
    (parsed : parse source dialect = .ok t) :
    ∃ s, Finished source.toList s ∧ t = Tree.ofState source.toList dialect s := by
  unfold parse parseChars at parsed
  dsimp only at parsed
  cases result : moduleBody source.toList { dialect, bound := byteLength source.toList + 2 }
    (initialState source.toList) with
  | ok _ s =>
      rw [result] at parsed
      cases parsed
      exact ⟨s, finished_of_moduleBody result, rfl⟩
  | error f s =>
      rw [result] at parsed
      cases parsed

/-- All nodes and scopes that a parsed tree refers to exist. -/
theorem isWellScoped_of_parse {source : String} {dialect : Dialect} {t : Tree}
    (parsed : parse source dialect = .ok t) : WellScoped t.nodes t.scopes t.references := by
  obtain ⟨s, finished, rfl⟩ := finished_of_parse parsed
  exact (finished.steps.coherent (State.coherent_initialState _)).wellScoped

theorem size_pos_of_parse {source : String} {dialect : Dialect} {t : Tree}
    (parsed : parse source dialect = .ok t) : 0 < t.size := by
  obtain ⟨s, finished, rfl⟩ := finished_of_parse parsed
  obtain ⟨n, _, found, -⟩ := finished.root
  exact (Array.getElem?_eq_some_iff.mp found).choose

/-- A parsed tree bears no mark of an edit. -/
theorem untouched_of_parse {source : String} {dialect : Dialect} {t : Tree}
    (parsed : parse source dialect = .ok t) : Untouched t.nodes := by
  obtain ⟨s, finished, rfl⟩ := finished_of_parse parsed
  exact finished.steps.untouched Untouched.empty

/-- Of the two quotes a parsed tree names one as that of its source. -/
theorem quote_of_parse {source : String} {dialect : Dialect} {t : Tree} (parsed : parse source dialect = .ok t) :
    t.style.quote = '\'' ∨ t.style.quote = '"' := by
  obtain ⟨s, -, rfl⟩ := finished_of_parse parsed
  dsimp only [Tree.ofState, Grammar.styleOf]
  split
  · exact .inr rfl
  · exact .inl rfl

/-- A parsed tree holds its source, and no text is to be inserted into it. -/
theorem source_of_parse {source : String} {dialect : Dialect} {t : Tree}
    (parsed : parse source dialect = .ok t) : t.source = source.toList ∧ t.insertions = [] := by
  obtain ⟨s, -, rfl⟩ := finished_of_parse parsed
  exact ⟨rfl, rfl⟩

/-- A result of which a test holds is no error. -/
theorem exists_ok_of_test {ε α : Type} (result : Except ε α) (test : α → Bool)
    (passes : (match result with | .ok a => test a | .error _ => false) = true) :
    ∃ a, result = .ok a ∧ test a = true := by
  cases result with
  | ok a => exact ⟨a, rfl, passes⟩
  | error e => cases passes

end BindingRepair.Script
