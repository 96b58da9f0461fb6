/-
# Imports take steps

An import adds names and nothing else. A name ends where its specifier does, and what stands in the braces of
an import lies inside it. Behind an import the next token is read between blanks and comments.
-/

import BindingRepair.Proofs.Grammar.Constructs

set_option synthInstance.maxSize 20000
set_option synthInstance.maxHeartbeats 100000

namespace BindingRepair.Script.Grammar

open Text

variable {α : Type} {origin : Cursor}

/-! ### Tokens of imports -/

instance : Lexical importAttributes := by
  unfold importAttributes
  infer_instance

instance : Lexical fromModule := by
  unfold fromModule
  infer_instance

instance (stringToo : Bool) : Lexical (eatTypeModifier stringToo) := by
  unfold eatTypeModifier
  infer_instance

instance : Lexical eatImportType := by
  unfold eatImportType
  infer_instance

instance (typesOnly : Bool) (stack : List Bracket) : Adjoins (groupStep typesOnly stack) :=
  Acts.groupStep (fun _ => inferInstance) typesOnly stack

instance (typesOnly : Bool) : Adjoins (balanced typesOnly) := by
  unfold balanced
  infer_instance

instance : Adjoins importAttributes := by
  unfold importAttributes
  infer_instance

instance : Adjoins fromModule := by
  unfold fromModule
  infer_instance

instance (stringToo : Bool) : Adjoins (eatTypeModifier stringToo) := by
  unfold eatTypeModifier
  infer_instance

instance : Adjoins eatImportType := by
  unfold eatImportType
  infer_instance

instance (imported : Token) : Lexical (specifierLocal imported) := by
  unfold specifierLocal
  infer_instance

instance (imported : Token) : Adjoins (specifierLocal imported) := by
  unfold specifierLocal
  infer_instance

/-! ### Where imports end -/

/-- A group goes on only over tokens that are not invalid. -/
theorem runs_groupStep {s : State} (typesOnly : Bool) (stack : List Bracket) :
    Runs origin s (groupStep typesOnly stack) fun _ t => t.token.kind ≠ .invalid := by
  refine Goes.bind_value (fun _ => rfl) ?_
  dsimp only
  split
  · exact Runs.unexpected
  · exact Runs.unexpected
  · rename_i head
    exact Runs.pure (head ▸ TokenKind.noConfusion)
  · rename_i punctuator
    have valid : s.token.kind ≠ .invalid := punctuator ▸ TokenKind.noConfusion
    split
    · exact Runs.pure valid
    refine Runs.ite (fun _ => Runs.ite (fun _ => Runs.pure valid) fun _ => Runs.unexpected) fun _ => ?_
    refine Runs.ite (fun _ => ?_) fun _ => Runs.ite (fun greater => ?_) fun _ => ?_
    · split
      · refine Runs.bind_tame fun _ t _ => Goes.bind_value (fun _ => rfl) ?_
        split
        · rename_i middle
          exact Runs.pure (middle ▸ TokenKind.noConfusion)
        · rename_i tail
          exact Runs.pure (tail ▸ TokenKind.noConfusion)
        · exact Runs.unexpected_bind
      · exact Runs.pure valid
      · exact Runs.unexpected_bind
    · have again : Runs origin s (reread Token.asGreater) fun _ t => t = { s with token := s.token.asGreater } :=
        (Runs.value (p := reread Token.asGreater) fun _ => rfl).weaken fun _ _ _ => And.right
      refine again.bind fun _ t _ is => Runs.pure ?_
      rw [is, Token.asGreater, if_pos (Bool.and_eq_true_iff.mp greater).1]
      exact TokenKind.noConfusion
    · exact Runs.ite (fun _ => Runs.unexpected_bind) fun _ => Runs.pure valid
  · rename_i other _ _
    exact Runs.pure other

/-- The last token of a group parts no line ending. -/
theorem runs_balanced (s : State) (typesOnly : Bool) :
    Runs origin s (balanced typesOnly) fun _ t => origin.Splits t.previousEnd := by
  refine Runs.loop (fun _ _ => True) trivial fun stack s _ => ?_
  refine (runs_groupStep typesOnly stack).bind fun stack t _ valid => Runs.of_at fun _ _ at' => ?_
  refine (runs_bump t).bind fun _ u _ read => ?_
  have splits : origin.Splits u.previousEnd := read.2 ▸ at'.sound.splits_bumped valid
  refine Runs.pure ?_
  split
  · exact splits
  · trivial

theorem runs_importAttributes {s : State} (splits : origin.Splits s.previousEnd) :
    Runs origin s importAttributes fun _ t => origin.Splits t.previousEnd := by
  refine Runs.bind_looks fun _ => Runs.bind_looks fun _ => Runs.bind_looks fun _ => Runs.ite (fun _ => ?_) fun _ => ?_
  · exact Runs.bind_tame fun _ t _ => runs_balanced t false
  · exact Runs.pure splits

theorem runs_fromModule (s : State) : Runs origin s fromModule fun _ t => origin.Splits t.previousEnd := by
  refine Runs.bind_tame fun _ t _ => Goes.bind_value (fun _ => rfl) (Runs.ite (fun string => ?_) fun _ => ?_)
  · refine Runs.of_at fun _ _ at' => (runs_bump t).bind fun _ u _ read => Runs.pure ?_
    exact read.2 ▸ at'.sound.splits_bumped (beq_iff_eq.mp string ▸ TokenKind.noConfusion)
  · exact Runs.fails fun _ => ⟨_, _, rfl⟩

/-! ### Names of imports -/

/-- Names alone have been added, inside the innermost open node, and the next token is read behind the gap. -/
structure State.Names (s t : State) : Prop where
  opened : t.opened = s.opened
  nodes : ∀ (i : Nat) (n : Node), t.nodes[i]? = some n → (∃ m, s.nodes[i]? = some m ∧ n.Resembles m) ∨
    n.kind.isIdentifier = true ∧ n.parent = s.opened.head?
  adjacent : s.Adjacent → t.Adjacent

theorem State.Names.trans {s t u : State} (first : s.Names t) (second : t.Names u) : s.Names u where
  opened := second.opened.trans first.opened
  nodes i n found := by
    rcases second.nodes i n found with ⟨m, between, same⟩ | ⟨identifier, parent⟩
    · rcases first.nodes i m between with ⟨k, old, same'⟩ | ⟨identifier, parent⟩
      · exact .inl ⟨k, old, same.trans same'⟩
      · exact .inr ⟨same.kind ▸ identifier, same.parent.trans parent⟩
    · exact .inr ⟨identifier, first.opened ▸ parent⟩
  adjacent := second.adjacent ∘ first.adjacent

/-- The parser adds nothing but names. -/
def naming : Effect where
  ok := State.Names
  error _ _ := True
  refl _ := ⟨rfl, fun _ n found => .inl ⟨n, found, .refl n⟩, id⟩
  trans := State.Names.trans
  fails _ := trivial
  then_fails _ _ := trivial

section Naming

variable {p : Parser α}

instance (priority := low) [lexical : Lexical p] [adjoins : Adjoins p] : Acts naming p := by
  refine ⟨fun c s => ?_⟩
  have acts := lexical.acts c s
  have acts' := adjoins.acts c s
  cases result : p c s with
  | ok a t =>
      rw [result] at acts acts'
      exact ⟨acts.1.opened, fun i n found => .inl ⟨n, acts.1.nodes ▸ found, .refl n⟩, acts'⟩
  | error e t => trivial

instance (t : Token) (site : BindingSite) : Acts naming (bind t site) := by
  refine ⟨fun c s => ⟨rfl, fun i n found => ?_, id⟩⟩
  rcases appendNode_cases found with ⟨-, new⟩ | ⟨-, m, old, same⟩
  · exact .inr ⟨new.kind ▸ rfl, new.parent⟩
  · exact .inl ⟨m, old, same⟩

instance (site : BindingSite) : Acts naming (bindCurrent site) := by
  unfold bindCurrent
  infer_instance

instance (kind : BindingKind) : Acts naming (bindName kind) := by
  unfold bindName
  infer_instance

instance (start : Nat) (typeOnly : Bool) (t : Token) (imported : String) :
    Acts naming (importedAs start typeOnly t imported) := by
  unfold importedAs
  infer_instance

instance : Acts naming importSpecifier := by
  unfold importSpecifier
  refine Acts.bind inferInstance fun _ => Acts.bind inferInstance fun _ => Acts.bind inferInstance fun t => ?_
  split
  · infer_instance
  · infer_instance
  · infer_instance

instance : Acts naming namedImports := by
  unfold namedImports
  infer_instance

instance (node : ImportNode) : Acts naming (importClause node) := by
  unfold importClause
  infer_instance

instance (typeOnly : Bool) : Acts naming (importNames typeOnly) := by
  unfold importNames
  infer_instance

instance (typeOnly : Bool) : Acts naming (importParts typeOnly) := by
  unfold importParts
  infer_instance

/-- What is known of a parser that adds names only. -/
theorem Runs.names [naming : Acts naming p] {s : State} {post : α → State → Prop} (runs : Runs origin s p post) :
    Runs origin s p fun a t => s.Names t ∧ post a t := by
  intro edge nested at' c
  have holds := runs edge nested at' c
  have acts := naming.acts c s
  cases result : p c s with
  | ok a t =>
      rw [result] at holds acts
      exact ⟨holds.1, holds.2.1, holds.2.2.1, holds.2.2.2.1, acts, holds.2.2.2.2⟩
  | error e t => trivial

end Naming

/-! ### Specifiers -/

/-- A token that has been read and can become a node now. -/
structure State.Offers (origin : Cursor) (s : State) (token : Token) : Prop where
  takes : s.Takes origin token
  behind : token.stop ≤ s.previousEnd.offset

theorem State.Offers.after {s t : State} {token : Token} (offers : s.Offers origin token) (same : s.SameTree t)
    (onward : Onward s t) : t.Offers origin token :=
  ⟨offers.takes.of_same same, Nat.le_trans offers.behind onward.previousEnd.offset_le⟩

/-- The current token can become a node when it has been read. -/
theorem runs_bump_offers {s : State} :
    Runs origin s bump fun _ t => Consumed s t ∧ s.SameTree t ∧ s.token.stop = t.previousEnd.offset ∧
      (s.token.kind = .identifier → t.Offers origin s.token) := by
  refine Runs.of_at fun nested _ at' => (runs_bump s).weaken ?_
  rintro _ _ - ⟨consumed, rfl⟩
  have stop : s.token.stop = s.bumped.previousEnd.offset := by
    rw [s.previousEnd_bumped]
    rfl
  refine ⟨consumed, s.sameTree_bumped, stop, fun identifier => ?_⟩
  exact ⟨(at'.takes nested identifier).of_same s.sameTree_bumped, Nat.le_of_eq stop⟩

/-- The token of the name under which something is imported can become a node. It has been read last. -/
theorem runs_specifierLocal {s : State} {imported : Token} (last : imported.stop = s.previousEnd.offset)
    (offers : imported.kind = .identifier → s.Offers origin imported) :
    Runs origin s (specifierLocal imported) fun r t => t.Offers origin r.1 ∧ r.1.stop = t.previousEnd.offset := by
  refine (runs_eatWord s "as").bind fun eaten t moves read => Runs.ite (fun _ => ?_) fun none => ?_
  · refine Goes.bind_value (fun _ => rfl) (Runs.ite (fun names => ?_) fun _ => Runs.unexpected_bind)
    refine Goes.bind_value (fun _ => rfl) (runs_bump_offers.bind fun _ u _ read' => Runs.pure ?_)
    exact ⟨read'.2.2.2 (kind_of_namesBinding names), read'.2.2.1⟩
  · rw [if_neg none] at read
    refine Runs.ite (fun identifier => Runs.pure ?_) fun _ => Runs.fails fun _ => ⟨_, _, rfl⟩
    exact read ▸ ⟨offers (beq_iff_eq.mp identifier), last⟩

/-- The name of a specifier is declared, and ends where the specifier does. -/
structure State.KnowsName (origin : Cursor) (s : State) (specifier : ImportSpecifier) : Prop where
  marks : origin.Marks specifier.span.stop
  ends : EndsName s.nodes specifier.localNode specifier.span.stop
  declares : s.Declares specifier.localNode

theorem State.KnowsName.after {s t : State} {specifier : ImportSpecifier} (known : s.KnowsName origin specifier)
    (moves : Moves origin s t) : t.KnowsName origin specifier :=
  ⟨known.marks, moves.steps.nodesKept.endsName known.ends, known.declares.after moves.steps moves.scope⟩

/-- The name that a specifier declares has been read last. -/
theorem runs_importedAs {s : State} (start : Nat) (typeOnly : Bool) (imported : String) :
    Runs origin s (importedAs start typeOnly s.token imported) fun specifier t => t.KnowsName origin specifier := by
  refine Runs.of_at fun _ _ at' => runs_bump_offers.bind fun _ t toName read => ?_
  refine (runs_specifierLocal read.2.2.1 read.2.2.2).bind fun r u toEnd ⟨offers, last⟩ => ?_
  have reaches : origin.Reaches u.previousEnd :=
    (at'.sound.reaches_first.trans read.1.reaches).trans toEnd.onward.previousEnd
  refine (runs_bind offers.takes offers.behind fun isVar => BindingKind.noConfusion isVar).bind ?_
  intro id v _ ⟨ends, same, declares⟩
  refine Goes.bind_value (fun _ => rfl) (Runs.pure ⟨?_, ?_, declares BindingKind.noConfusion⟩)
  · dsimp only
    rw [same]
    exact reaches.marks
  · dsimp only
    rw [same, ← last]
    exact ends

theorem runs_importSpecifier (s : State) :
    Runs origin s importSpecifier fun specifier t => t.KnowsName origin specifier := by
  refine Goes.bind_value (fun _ => rfl) (Runs.bind_tame fun typeOnly t _ => ?_)
  refine Goes.bind_value (fun _ => rfl) ?_
  split
  · exact Goes.bind_value (fun _ => rfl) (runs_importedAs _ _ _)
  · exact Goes.bind_value (fun _ => rfl) (runs_importedAs _ _ _)
  · exact Runs.unexpected_bind

/-- All names that are in braces have been declared, and end where their specifiers do. -/
def State.KnowsNames (origin : Cursor) (s : State) (specifiers : List ImportSpecifier) : Prop :=
  ∀ specifier ∈ specifiers, s.KnowsName origin specifier

theorem State.KnowsNames.after {s t : State} {specifiers : List ImportSpecifier}
    (known : s.KnowsNames origin specifiers) (moves : Moves origin s t) : t.KnowsNames origin specifiers :=
  fun specifier here => (known specifier here).after moves

/-- The names in braces up to the closing brace, which is the current token then. Where there are none, nothing
has been added. -/
theorem runs_specifiers (s : State) :
    Runs origin s (loop #[] fun specifiers => do
      if ← isAt "\x7d" then return .inr specifiers
      let specifier ← importSpecifier
      unless ← isAt "\x7d" do expect ","
      return .inl (specifiers.push specifier)) fun specifiers t =>
      t.KnowsNames origin specifiers.toList ∧ t.token.isPunctuator "\x7d" = true ∧
        (specifiers.toList = [] → s.SameTree t) := by
  refine Runs.loop (fun specifiers t => t.KnowsNames origin specifiers.toList ∧ (specifiers.toList = [] → s.SameTree t))
    ⟨fun _ none => absurd none List.not_mem_nil, fun _ => .refl s⟩ fun specifiers t known => ?_
  refine Goes.bind_value (fun _ => rfl) (Runs.ite (fun closes => ?_) fun _ => ?_)
  · exact Runs.pure ⟨known.1, closes, known.2⟩
  refine (runs_importSpecifier t).bind fun added u toNext addedKnown => ?_
  have all {v : State} (moves : Moves origin u v) : v.KnowsNames origin (specifiers.push added).toList ∧
      ((specifiers.push added).toList = [] → s.SameTree v) := by
    rw [Array.toList_push]
    refine ⟨fun specifier here => ?_, fun none => absurd none (List.concat_ne_nil _ _)⟩
    rw [List.mem_append, List.mem_singleton] at here
    rcases here with old | rfl
    · exact known.1.after (toNext.trans moves) specifier old
    · exact addedKnown.after moves
  refine Runs.bind_looks fun _ => Runs.ite (fun _ => Runs.pure (all (.refl u))) fun _ => ?_
  exact Runs.bind_tame fun _ v toComma => Runs.pure (all toComma)

theorem runs_namedImports (s : State) :
    Runs origin s namedImports fun named t =>
      named.Placed origin ∧ t.ReadsNames s.token.start t.previousEnd.offset named ∧
        t.KnowsNames origin named.specifiers := by
  refine Runs.of_at fun _ _ at' => Goes.bind_value (fun _ => rfl) (Runs.lexical.bind fun _ t toNames same => ?_)
  refine (runs_specifiers t).bind fun specifiers u toClosing ⟨known, closes, unchanged⟩ => ?_
  refine Goes.bind_value (fun _ => rfl) (Runs.of_at fun _ _ there => (runs_bump u).bind fun _ v toEnd read => ?_)
  have stop : v.previousEnd.offset = u.token.start + 1 := by
    rw [read.2, u.previousEnd_bumped]
    exact there.sound.covers.stop_of_isPunctuator closes
  have known' := known.after toEnd
  have splits : origin.Splits v.previousEnd :=
    read.2 ▸ there.sound.splits_bumped (kind_of_isPunctuator closes ▸ TokenKind.noConfusion)
  refine Runs.pure ⟨⟨at'.sound.reaches_first.marks, ⟨_, splits, stop⟩, ?_, ?_⟩, ?_, known'⟩
  · exact (toNames.trans toClosing).onward.first.offset_le
  · exact fun specifier here => (known specifier here).marks
  · refine ⟨Nat.le_refl _, ?_, fun specifier here => (known' specifier here).ends, fun isEmpty => ?_⟩
    · rw [stop]
      exact Nat.lt_succ_self _
    · have all := (same.trans (unchanged isEmpty)).trans (read.2 ▸ u.sameTree_bumped)
      exact at'.clear_start.of_same all.nodes

/-! ### Import declarations -/

/-- What has been read of an import that begins at an offset: its names have been declared, none was added by
an edit, and its braces have their places. -/
structure State.KnowsImport (origin : Cursor) (start : Nat) (s : State) (node : ImportNode) : Prop where
  declared : ∀ id ∈ node.localNodes, s.Declares id
  untouched : node.added = []
  placed : ∀ named ∈ node.named, named.Placed origin
  defaultName : ∀ name ∈ node.defaultName, ∃ stop, EndsName s.nodes name stop
  named : ∀ named ∈ node.named, s.ReadsNames start s.previousEnd.offset named

/-- While tokens alone are read, all stays known. -/
theorem State.KnowsImport.after {start : Nat} {s t : State} {node : ImportNode}
    (known : s.KnowsImport origin start node) (same : s.SameTree t) (onward : Onward s t) :
    t.KnowsImport origin start node := by
  have kept {id : NodeId} {stop : Nat} (ends : EndsName s.nodes id stop) : EndsName t.nodes id stop :=
    (State.nodesKept_of_eq same.nodes).endsName ends
  refine ⟨fun id here => ?_, known.untouched, known.placed, fun name here => ?_, fun named here => ?_⟩
  · rw [State.Declares, same.nodes, same.scope]
    exact known.declared id here
  · obtain ⟨stop, ends⟩ := known.defaultName name here
    exact ⟨stop, kept ends⟩
  · have reads := known.named named here
    refine ⟨reads.opening, Nat.lt_of_lt_of_le reads.closing onward.previousEnd.offset_le, ?_, fun isEmpty => ?_⟩
    · exact fun specifier inBraces => kept (reads.specifiers specifier inBraces)
    · exact (reads.empty isEmpty).of_same same.nodes

/-- An import that has no names but at most a default name so far. -/
theorem State.knowsImport_default {s : State} {node : ImportNode} (start : Nat) (untouched : node.added = [])
    (spaceless : node.namespaceName = none) (braceless : node.named = none)
    (defaultName : ∀ name ∈ node.defaultName, (∃ stop, EndsName s.nodes name stop) ∧ s.Declares name) :
    s.KnowsImport origin start node := by
  refine ⟨fun id here => ?_, untouched, ?_, fun name here => (defaultName name here).1, ?_⟩
  · simp only [ImportNode.localNodes, spaceless, braceless, untouched, Option.toList_none, Option.map_none,
      Option.getD_none, List.append_nil, Option.mem_toList] at here
    exact (defaultName id here).2
  · rw [braceless]
    exact fun _ none => absurd none (Option.not_mem_none _)
  · rw [braceless]
    exact fun _ none => absurd none (Option.not_mem_none _)

/-- A clause adds names of a namespace or in braces to an import that has none of either. -/
theorem runs_importClause {s : State} {start : Nat} {node : ImportNode} (known : s.KnowsImport origin start node)
    (spaceless : node.namespaceName = none) (braceless : node.named = none) (before : start ≤ s.token.start) :
    Runs origin s (importClause node) fun node t => t.KnowsImport origin start node := by
  have default {t : State} (moves : Moves origin s t) (name : NodeId) (here : name ∈ node.defaultName) :
      ∃ stop, EndsName t.nodes name stop := by
    obtain ⟨stop, ends⟩ := known.defaultName name here
    exact ⟨stop, moves.steps.nodesKept.endsName ends⟩
  have declares {t : State} (moves : Moves origin s t) (name : NodeId) (here : name ∈ node.defaultName) :
      t.Declares name :=
    (known.declared name (by simp [ImportNode.localNodes, Option.mem_def.mp here])).after moves.steps moves.scope
  refine Runs.bind_tame fun _ t toStar => Runs.ite (fun _ => ?_) fun _ => ?_
  · refine Runs.bind_tame fun _ u toName => Goes.bind_value (fun _ => rfl) ?_
    refine Runs.ite (fun names => ?_) fun _ => Runs.unexpected_bind
    refine Runs.bind (runs_bindName names fun isVar => BindingKind.noConfusion isVar) ?_
    refine fun name v toEnd nameKnown => Runs.pure ⟨fun id here => ?_, known.untouched, known.placed, ?_, ?_⟩
    · simp only [ImportNode.localNodes, braceless, known.untouched, Option.map_none, Option.getD_none,
        Option.toList_some, List.append_nil, List.mem_append, List.mem_singleton, Option.mem_toList] at here
      rcases here with inDefault | rfl
      · exact declares ((toStar.trans toName).trans toEnd) id inDefault
      · exact nameKnown.2.2 BindingKind.noConfusion
    · exact default ((toStar.trans toName).trans toEnd)
    · dsimp only
      rw [braceless]
      exact fun _ none => absurd none (Option.not_mem_none _)
  · refine Runs.bind_tame fun _ u toBrace => Runs.ite (fun _ => ?_) fun _ => Runs.unexpected
    refine (runs_namedImports u).bind fun named v toEnd namedKnown => Runs.pure ?_
    have behind := (toStar.trans toBrace).trans toEnd
    refine ⟨fun id here => ?_, known.untouched, fun other here => ?_, default behind, fun other here => ?_⟩
    · simp only [ImportNode.localNodes, spaceless, known.untouched, Option.map_some, Option.getD_some,
        Option.toList_none, List.append_nil, List.mem_append, List.mem_map, Option.mem_toList] at here
      rcases here with inDefault | ⟨specifier, inBraces, rfl⟩
      · exact declares behind id inDefault
      · exact (namedKnown.2.2 specifier inBraces).declares
    · obtain rfl := Option.mem_some.mp here
      exact namedKnown.1
    · obtain rfl := Option.mem_some.mp here
      have reads := namedKnown.2.1
      have further := (toStar.trans toBrace).onward.first.offset_le
      exact ⟨(before.trans further).trans reads.opening, reads.closing, reads.specifiers, reads.empty⟩

theorem runs_importNames {s : State} {start : Nat} (typeOnly : Bool) (before : start ≤ s.token.start) :
    Runs origin s (importNames typeOnly) fun node t => t.KnowsImport origin start node := by
  refine Goes.bind_value (fun _ => rfl) (Runs.ite (fun names => ?_) fun _ => ?_)
  · refine Runs.bind (runs_bindName names fun isVar => BindingKind.noConfusion isVar) fun name t toName known => ?_
    refine Runs.bind_tame fun _ u toComma => ?_
    have nameKnown : u.KnowsImport origin start { source := "", typeOnly, defaultName := some name } := by
      refine State.knowsImport_default start rfl rfl rfl fun id here => ?_
      obtain rfl := Option.mem_some.mp here
      refine ⟨⟨_, toComma.steps.nodesKept.endsName known.2.1⟩, ?_⟩
      exact (known.2.2 BindingKind.noConfusion).after toComma.steps toComma.scope
    have further := (toName.trans toComma).onward.first.offset_le
    refine Runs.ite (fun _ => runs_importClause nameKnown rfl rfl (before.trans further)) fun _ => ?_
    exact Runs.pure nameKnown
  · refine runs_importClause (State.knowsImport_default start rfl rfl rfl ?_) rfl rfl before
    exact fun _ none => absurd none (Option.not_mem_none _)

theorem runs_importParts {s : State} {start : Nat} (typeOnly : Bool) (before : start ≤ s.token.start) :
    Runs origin s (importParts typeOnly) fun node t =>
      t.KnowsImport origin start node ∧ origin.Splits t.previousEnd := by
  refine Goes.bind_value (fun _ => rfl) (Runs.ite (fun string => ?_) fun _ => ?_)
  · refine Runs.of_at fun _ _ at' => (runs_bump s).bind fun _ t _ read => Runs.pure ⟨?_, ?_⟩
    · exact State.knowsImport_default start rfl rfl rfl fun _ none => absurd none (Option.not_mem_none _)
    · exact read.2 ▸ at'.sound.splits_bumped (beq_iff_eq.mp string ▸ TokenKind.noConfusion)
  · refine (runs_importNames typeOnly before).bind fun node t _ known => ?_
    refine (Runs.lexical.and (runs_fromModule t)).bind fun source u toEnd ⟨same, splits⟩ => Runs.pure ⟨?_, splits⟩
    have further := known.after same toEnd.onward
    exact ⟨further.declared, further.untouched, further.placed, further.defaultName, further.named⟩

theorem runs_importAlias {s : State} (names : namesBinding s.token = true) :
    Runs origin s importAlias fun _ _ => True :=
  Runs.bind (runs_bindName names fun isVar => BindingKind.noConfusion isVar) fun _ t _ _ =>
    Tame.runs inferInstance t

theorem State.admits_import {start : Nat} {s : State} {node : ImportNode} (known : s.KnowsImport origin start node) :
    s.Admits origin (.importDeclaration node) where
  plain := rfl
  untouched := List.isEmpty_iff.mpr known.untouched
  named id here := (known.declared id here).knows
  body scope here := by cases here
  placed := known.placed

/-- All that has been added in an import since it was opened are names, which are declared where it stands. -/
theorem State.Names.readsImport {outer s : State} {start : Cursor} {node : ImportNode}
    (names : (outer.openNode .statement start.offset).Names s)
    (nested : outer.Nested) (inside : InNode origin outer ⟨outer.nodes.size⟩ start s)
    (known : s.KnowsImport origin start.offset node) (splits : origin.Splits s.previousEnd) :
    s.ReadsImport origin ⟨outer.nodes.size⟩ node s.previousEnd.offset where
  splits := splits.at_offset
  names i n found later := by
    rcases names.nodes i n found with ⟨m, old, -⟩ | ⟨identifier, parent⟩
    · rcases appendNode_cases old with ⟨new, -⟩ | ⟨before, -⟩
      · exact absurd later (Nat.not_lt.mpr (Nat.le_of_eq new))
      · exact absurd (Nat.lt_trans before later) (Nat.lt_irrefl _)
    · exact ⟨identifier, parent⟩
  defaultName := known.defaultName
  named named here n found := by
    rw [inside.start_eq found]
    exact known.named named here
  declared n found top name here := by
    obtain ⟨m, found', -, -, parent, -⟩ := inside.node
    obtain rfl := Option.some.inj (found.symm.trans found')
    rw [← nested.top (parent.symm.trans top), ← inside.scope]
    exact known.declared name here

/-- An import begins with a word, so it is not at the end of the text. -/
theorem runs_importDeclaration {s : State} (word : s.token.kind = .identifier) :
    Runs origin s importDeclaration fun _ t => Consumed s t := by
  refine Runs.of_at fun _ _ at' => Goes.bind_value (fun _ => rfl) (Runs.consumed (runs_openHere ?_))
  have begins : s.token.first.offset < origin.ends :=
    Nat.lt_of_lt_of_le (at'.sound.covers.fills.passes (at'.sound.covers.named word)).offset_lt
      at'.sound.reaches_last.marks.le_ends
  refine Completes.bind (runs_bump _).names fun _ t toWord ⟨names, consumed, is⟩ => ?_
  have adjacent : t.Adjacent := is ▸ State.adjacent_bumped _
  refine Completes.bind (Tame.runs inferInstance t).names fun typeOnly u toNames ⟨names', _⟩ => ?_
  have filled {v : State} (moves : Moves origin u v) : s.token.first.Fills v.previousEnd :=
    consumed.trans_reaches (toNames.trans moves).onward.previousEnd
  have before : s.token.start ≤ u.token.start := (toWord.trans toNames).onward.first.offset_le
  refine Completes.bind_value (fun _ => rfl) (Completes.bind_looks fun _ => Completes.bind_looks fun _ => ?_)
  refine Completes.ite (fun isAlias => ?_) fun _ => ?_
  · simp only [Bool.and_eq_true] at isAlias
    refine Completes.bind (runs_importAlias isAlias.1.1) fun _ v moves _ => ?_
    exact Completes.closeNode (filled moves) fun _ => trivial
  · refine Completes.bind (runs_importParts typeOnly before).names fun node v toEnd ⟨names'', known, splits⟩ => ?_
    refine Completes.bind (Runs.lexical.and (runs_importAttributes splits)).names ?_
    intro _ w toSemicolon ⟨more, same, splits⟩
    refine Completes.bind (Runs.lexical.and (runs_consumeSemicolon splits)).names ?_
    intro _ x toBehind ⟨more', same', splits⟩
    have further := toSemicolon.trans toBehind
    have known' := known.after (same.trans same') further.onward
    have all := ((names'.trans names'').trans more).trans more'
    refine Completes.of_within fun nested inside _ _ => ?_
    refine Completes.closeImport (filled (toEnd.trans further)) begins (State.admits_import known') ?_ ?_ fun _ => trivial
    · exact (names.trans all).readsImport nested inside known' splits
    · exact Nat.le_of_eq (all.adjacent adjacent).start_eq.symm

end BindingRepair.Script.Grammar
