/-
# Items take steps

Statements, declarations and modules. A `var` is declared directly inside its declarator, so its scope is
the one around the node it belongs to; the offsets that an import or a function names are those of places.
-/

import BindingRepair.Proofs.Grammar.Expressions
import BindingRepair.Proofs.Grammar.Imports

set_option synthInstance.maxSize 20000
set_option synthInstance.maxHeartbeats 100000

namespace BindingRepair.Script.Grammar

open Text

variable {α : Type} {origin : Cursor} {rules : Rules}

section Orderly

variable [orderly : Orderly rules]

/-! ### Variables -/

theorem runs_declaredName {s : State} {kind : BindingKind} (level : kind = .var → s.Level) :
    Runs origin s (declaredName rules kind) fun name t => Consumed s t ∧ ∀ n ∈ name, t.Knows n := by
  refine Goes.bind_value (fun _ => rfl) (Runs.ite (fun names => runs_bindName_some names level) fun _ => ?_)
  exact (orderly.target kind origin s level).bind fun _ t _ consumed => Runs.pure ⟨consumed, t.knows_none⟩

instance : Tame (declaredType rules) := by
  unfold declaredType
  infer_instance

theorem runs_initialFunction (s : State) (noIn : Bool) :
    Runs origin s (initialFunction rules noIn) fun function t => ∀ f ∈ function, t.Knows f := by
  refine Runs.bind_tame fun _ t _ => Runs.ite (fun _ => ?_) fun _ => Runs.pure t.knows_none
  have value : Runs origin t (withExporting false (rules (.assignment noIn))) Shape.Known :=
    goes_withExporting (Finds.runs origin _) fun _ _ => id
  exact value.bind fun shape u _ known => Runs.pure known

theorem State.admits_declarator {s : State} {name function : Option NodeId}
    (nameKnown : ∀ n ∈ name, s.Knows n) (functionKnown : ∀ f ∈ function, s.Knows f) :
    s.Admits origin (.declarator { name, function }) where
  plain := rfl
  untouched := rfl
  named id here := by
    rcases List.mem_append.mp here with inName | inFunction
    · exact nameKnown id (Option.mem_toList.mp inName)
    · exact functionKnown id (Option.mem_toList.mp inFunction)
  body scope here := by cases here
  placed := trivial

instance (kind : BindingKind) (noIn : Bool) : Eager (declarator rules kind noIn) := by
  refine ⟨fun origin s => Goes.bind_value (fun _ => rfl) (Runs.consumed (runs_openHere ?_))⟩
  refine Completes.of_within fun _ inside _ _ => ?_
  refine Completes.bind (runs_declaredName fun _ => inside.level) fun name t toName named => ?_
  refine Completes.bind_tame fun _ u toType => ?_
  refine Completes.bind (runs_initialFunction u noIn) fun function v toValue functionKnown => ?_
  have further := toType.trans toValue
  have filled : Consumed s v := named.1.trans_onward further.onward
  refine Completes.setKind rfl (fun _ none => absurd none (Option.not_mem_none _)) ?_ fun _ => ?_
  · exact State.admits_declarator (fun n here => further.knows (named.2 n here)) functionKnown
  · exact Completes.closeNode filled fun _ => trivial

/-- The node of a variable declaration stays open for what follows. -/
theorem runs_varDeclaration {s : State} {noIn : Bool} {f : NodeId → Parser Unit}
    (rest : ∀ outer id start t, start.Fills t.previousEnd →
      Completes origin outer id start t (f id) fun _ _ => True) :
    Runs origin s (varDeclaration rules noIn >>= f) fun _ t => Consumed s t := by
  unfold varDeclaration
  simp only [bind_assoc, pure_bind]
  refine Goes.bind_value (fun _ => rfl) ?_
  obtain ⟨kind, bindingKind⟩ := varKinds s.token.text
  refine Runs.consumed (runs_openHere (Completes.bind_eager fun _ t _ consumed => ?_))
  exact Completes.bind_tame fun _ u moves => rest _ _ _ u (consumed.trans_onward moves.onward)

instance : Eager (varStatement rules) := by
  refine ⟨fun origin s => runs_varDeclaration fun _ _ _ _ filled => ?_⟩
  exact Completes.bind_tame fun _ _ moves =>
    Completes.closeNode (filled.trans_reaches moves.onward.previousEnd) fun _ => trivial

instance (noIn : Bool) : Eager (varDeclaration rules noIn >>= closeNode) :=
  ⟨fun _ _ => runs_varDeclaration fun _ _ _ _ filled => Completes.closeNode filled fun _ => trivial⟩

/-! ### Statements -/

instance : Eager (parenthesized rules) := by
  unfold parenthesized
  infer_instance

/-- A declaration of block variables begins a scope, which is left behind the loop. -/
theorem goes_forInitializer {s : State} (deep : s.Deep) : Goes origin s (forInitializer rules) fun _ _ => True := by
  have tame {p : Parser Unit} [Tame p] (t : State) : Goes origin t p fun _ _ => True :=
    Runs.goes (Tame.runs inferInstance t)
  have rest (isVar declares : Bool) : Goes origin s (do
      if declares then
        unless isVar do
          let _ ← enterScope .block
        closeNode (← varDeclaration rules true)
      else
        let _ ← expression rules true) fun _ _ => True :=
    Goes.ite (fun _ => Goes.ite (fun _ => tame s) fun _ => goes_enterScope deep (tame _)) fun _ => tame s
  refine Goes.bind_value (fun _ => rfl) (Goes.ite (fun _ => Goes.pure trivial) fun _ => ?_)
  refine Goes.bind_value (fun _ => rfl) (Goes.bind_value (fun _ => rfl) (Goes.bind_value (fun _ => rfl) ?_))
  refine Goes.ite (fun _ => Goes.bind_value (fun _ => rfl) (rest _ _)) fun _ => ?_
  refine Goes.ite (fun _ => Goes.bind_value (fun _ => rfl) (rest _ _)) fun _ => ?_
  exact Goes.ite (fun _ => Goes.bind_value (fun _ => rfl) (rest _ _)) fun _ => Goes.bind_value (fun _ => rfl) (rest _ _)

instance : Tame (forRest rules) := by
  unfold forRest
  infer_instance

instance : Busy (forStatement rules) := by
  have body : Sheltered (keepingScope do
      forInitializer rules
      forRest rules
      expect ")"
      rules .item) :=
    ⟨fun _ _ deep => runs_keepingScope ((goes_forInitializer deep).bind fun _ t _ _ =>
      Runs.goes (Tame.runs inferInstance t)) fun _ _ => id⟩
  unfold forStatement
  infer_instance

instance : Tame (catchParameter rules) := by
  unfold catchParameter
  infer_instance

instance : Busy (tryStatement rules) := by
  unfold tryStatement
  infer_instance

instance : Tame (switchItem rules) := by
  unfold switchItem
  infer_instance

instance : Busy (switchStatement rules) := by
  unfold switchStatement
  infer_instance

instance : Eager (ifStatement rules) := by
  unfold ifStatement
  infer_instance

instance : Eager (whileStatement rules) := by
  unfold whileStatement
  infer_instance

instance : Eager (doStatement rules) := by
  unfold doStatement
  infer_instance

instance : Eager (returnStatement rules) := by
  unfold returnStatement
  infer_instance

omit orderly in
instance : Eager jumpStatement := by
  unfold jumpStatement
  infer_instance

instance : Eager (plainStatement rules) := by
  unfold plainStatement
  infer_instance

instance (word : String) : Busy (statementOf rules word) := by
  unfold statementOf
  split <;> infer_instance

instance : Eager (statement rules) := by
  have parts (t : Token) : Busy (if t.isWord then statementOf rules t.text else plainStatement rules) :=
    inferInstance
  refine Eager.bind inferInstance fun block => ?_
  split
  · infer_instance
  · refine ⟨fun origin s => Goes.bind_value (fun _ => rfl) ?_⟩
    have := parts s.token
    exact runs_within_busy

/-! ### Type and ambient declarations -/

omit orderly in
theorem runs_ambientName (s : State) : Runs origin s ambientName fun _ t => Consumed s t := by
  refine Goes.bind_value (fun _ => rfl) (Runs.ite (fun names => ?_) fun _ => Runs.fails fun _ => ⟨_, _, rfl⟩)
  exact (runs_bindName names fun isVar => BindingKind.noConfusion isVar).bind fun _ _ _ both => Runs.pure both.1

omit orderly in
instance : Eager ambientName :=
  ⟨fun _ => runs_ambientName⟩

omit orderly in
instance : Eager enumRest := by
  unfold enumRest
  infer_instance

omit orderly in
instance : Eager enumDeclaration := by
  unfold enumDeclaration
  infer_instance

instance : Eager (interfaceDeclaration rules) := by
  unfold interfaceDeclaration
  infer_instance

instance : Eager (aliasDeclaration rules) := by
  unfold aliasDeclaration
  infer_instance

instance : Tame (interfaceOrAlias rules) := by
  unfold interfaceOrAlias
  infer_instance

instance : Tame (namespaceRest rules) := by
  unfold namespaceRest
  infer_instance

instance : Tame (ambientVariables rules) := by
  unfold ambientVariables
  infer_instance

instance : Tame (ambientFunction rules) := by
  unfold ambientFunction
  infer_instance

omit orderly in
instance : Tame ambientClass := by
  unfold ambientClass
  have parts : Tame (repeatWhile do
      if ← isAt "\x7b" then return false
      match ← currentKind with
      | .endOfText | .invalid => expected "\x7b"
      | _ => if ← isAt "<" then balanced false else bump
      return true) := by
    refine Acts.repeatWhile (Acts.bind inferInstance fun _ => ?_)
    repeat' first
      | infer_instance
      | split
      | refine Acts.bind inferInstance fun _ => ?_
  infer_instance

instance : Tame (ambientDeclaration rules) := by
  unfold ambientDeclaration
  repeat' first
    | infer_instance
    | split
    | refine Acts.bind inferInstance fun _ => ?_

instance {body : Parser Unit} [Tame body] : Eager (behindWord body) := by
  have opened : Eager ((currentStart >>= fun start => within .typeDeclaration start (bump >>= fun _ => body)) >>=
      fun _ => pure true) :=
    inferInstance
  rwa [bind_assoc] at opened

instance : Tame (typeDeclaration rules) := by
  unfold typeDeclaration
  refine Acts.bind inferInstance fun t => ?_
  repeat' first
    | infer_instance
    | split

end Orderly

/-! ### Exports -/

instance : Lexical exportFrom := by
  unfold exportFrom
  infer_instance

instance : Looks isAtExportName := by
  unfold isAtExportName
  refine Acts.bind inferInstance fun kind => ?_
  split
  · infer_instance
  · infer_instance
  · infer_instance

/-- A name in a list of exports stands at the current token or behind it. -/
theorem runs_exportSpecifier (s : State) :
    Runs origin s exportSpecifier fun token t =>
      s.token.start ≤ token.start ∧ s.SameTree t ∧ (token.kind = .identifier → t.Offers origin token) := by
  refine Runs.lexical.bind fun _ t toName sameName => Goes.bind_value (fun _ => rfl) ?_
  have start : s.token.start ≤ t.token.start := toName.onward.first.offset_le
  refine Runs.bind_looks fun _ => Runs.ite (fun _ => ?_) fun _ => Runs.unexpected_bind
  refine runs_bump_offers.bind fun _ u _ read => Runs.lexical.bind fun _ v toWord sameWord => ?_
  have same := (sameName.trans read.2.1).trans sameWord
  have offers (identifier : t.token.kind = .identifier) : v.Offers origin t.token :=
    (read.2.2.2 identifier).after sameWord toWord.onward
  refine Runs.ite (fun _ => ?_) fun _ => Runs.pure ⟨start, same, offers⟩
  refine Runs.bind_looks fun _ => Runs.ite (fun _ => ?_) fun _ => Runs.unexpected_bind
  refine Runs.lexical.bind fun _ w toEnd sameEnd => Runs.pure ?_
  exact ⟨start, same.trans sameEnd, fun identifier => (offers identifier).after sameEnd toEnd.onward⟩

/-- Tokens that have been read one behind the other and can become nodes now. -/
structure State.Queues (origin : Cursor) (s : State) (tokens : List Token) : Prop where
  offers : ∀ token ∈ tokens, s.Offers origin token
  ordered : tokens.Pairwise fun a b => a.stop ≤ b.start

namespace State.Queues

variable {s t : State} {tokens : List Token}

theorem after (queues : s.Queues origin tokens) (same : s.SameTree t) (onward : Onward s t) :
    t.Queues origin tokens :=
  ⟨fun token here => (queues.offers token here).after same onward, queues.ordered⟩

theorem push (queues : s.Queues origin tokens) {token : Token} (offers : s.Offers origin token)
    (behind : ∀ earlier ∈ tokens, earlier.stop ≤ token.start) : s.Queues origin (tokens ++ [token]) where
  offers other here := by
    rcases List.mem_append.mp here with old | new
    · exact queues.offers other old
    · rwa [List.mem_singleton.mp new]
  ordered := by
    refine List.pairwise_append.mpr ⟨queues.ordered, List.pairwise_singleton _ _, fun a here b new => ?_⟩
    rw [List.mem_singleton.mp new]
    exact behind a here

/-- When the first has become a node, the others can still. -/
theorem refer {token : Token} (queues : s.Queues origin (token :: tokens)) (nested : s.Nested) :
    (s.refer token).Queues origin tokens := by
  obtain ⟨behind, ordered⟩ := List.pairwise_cons.mp queues.ordered
  have adds := adds_refer (queues.offers token List.mem_cons_self).takes
  refine ⟨fun other here => ?_, ordered⟩
  obtain ⟨takes, read⟩ := queues.offers other (List.mem_cons_of_mem _ here)
  refine ⟨⟨takes.identifier, takes.covers, takes.reaches, ?_⟩, read⟩
  refine ⟨fun none => absurd none nested.nonempty, takes.room.marks, ?_, adds.spaced takes.room.spaced⟩
  exact adds.clear takes.room.clear (behind other here)

end State.Queues

/-- All tokens refer to bindings, one after the other. -/
theorem runs_referAll {tokens : List Token} : ∀ s : State, s.Queues origin tokens →
    Runs origin s (tokens.forM refer) fun _ _ => True := by
  induction tokens with
  | nil => exact fun _ _ => Runs.pure trivial
  | cons token tokens ih =>
      intro s queues
      have offers := queues.offers token List.mem_cons_self
      refine Runs.of_at fun nested _ _ => (runs_refer offers.takes offers.behind).bind ?_
      rintro _ _ - rfl
      exact ih _ (queues.refer nested)

/-- The names in a list of exports can become nodes when the closing brace is reached. -/
theorem runs_exportNames (s : State) :
    Runs origin s (loop #[] fun names => do
      if ← isAt "\x7d" then return .inr names
      let t ← exportSpecifier
      unless ← isAt "\x7d" do expect ","
      return .inl (if t.kind == .identifier then names.push t else names)) fun names t =>
      t.Queues origin names.toList := by
  refine Runs.loop (fun names t => t.Queues origin names.toList)
    ⟨fun _ none => absurd none List.not_mem_nil, List.Pairwise.nil⟩ fun names t queues => ?_
  refine Runs.bind_looks fun _ => Runs.ite (fun _ => Runs.pure queues) fun _ => Runs.of_at fun _ _ at' => ?_
  refine (runs_exportSpecifier t).bind fun token u toNext known => ?_
  obtain ⟨start, same, offers⟩ := known
  have all : u.Queues origin (if token.kind == .identifier then names.push token else names).toList := by
    have old := queues.after same toNext.onward
    split
    · rename_i identifier
      rw [Array.toList_push]
      refine old.push (offers (beq_iff_eq.mp identifier)) fun earlier here => ?_
      have behind := (queues.offers earlier here).behind
      exact (behind.trans at'.sound.token.offset_le).trans start
    · exact old
  refine Runs.bind_looks fun _ => Runs.ite (fun _ => Runs.pure all) fun _ => ?_
  exact Runs.lexical.bind fun _ v toComma same' => Runs.pure (all.after same' toComma.onward)

theorem runs_exportList (s : State) (typeOnly : Bool) :
    Runs origin s (exportList typeOnly) fun _ _ => True := by
  refine Runs.bind_tame fun _ t _ => (runs_exportNames t).bind fun names u _ queues => ?_
  refine Runs.lexical.bind fun _ v toEnd same => Runs.bind_looks fun _ => Runs.ite ?_ fun _ => ?_
  · exact fun _ => Tame.runs inferInstance v
  · refine Runs.ite (fun _ => Tame.runs inferInstance v) fun _ => ?_
    refine (runs_referAll v (queues.after same toEnd.onward)).bind fun _ w _ _ => ?_
    exact Tame.runs inferInstance w

instance (typeOnly : Bool) : Tame (exportList typeOnly) :=
  Tame.of_steps fun _ s => runs_exportList s typeOnly

instance : Tame exportAlias := by
  refine Tame.of_steps fun origin s => Runs.bind_tame fun _ t _ => Goes.bind_value (fun _ => rfl) ?_
  refine Runs.ite (fun names => ?_) fun _ => Runs.unexpected_bind
  refine Runs.bind (runs_bindCurrent (kind_of_namesBinding names) fun isVar => BindingKind.noConfusion isVar) ?_
  exact fun _ u _ _ => Tame.runs inferInstance u

section Orderly

variable [Orderly rules]

instance : Tame (typedExport rules) := by
  unfold typedExport
  infer_instance

instance : Tame (exportDefault rules) := by
  unfold exportDefault
  infer_instance

instance : Eager (exportDeclaration rules) := by
  refine ⟨fun origin s => Goes.bind_value (fun _ => rfl) (Runs.consumed (runs_openHere ?_))⟩
  refine Completes.bind_eager fun _ t _ consumed => Completes.bind_tame fun isDefault u toNames => ?_
  have filled {v : State} (moves : Moves origin u v) : s.token.first.Fills v.previousEnd :=
    consumed.trans_reaches (toNames.trans moves).onward.previousEnd
  have ends {v : State} (moves : Moves origin u v) {p : Parser Unit} [Tame p] :
      Completes origin s ⟨s.nodes.size⟩ s.token.first v (p >>= fun _ => closeNode ⟨s.nodes.size⟩) fun _ _ => True :=
    Completes.bind_tame fun _ w toEnd => Completes.closeNode (filled (moves.trans toEnd)) fun _ => trivial
  refine Completes.ite (fun _ => ?_) fun _ => Completes.bind_tame fun _ v toStar => Completes.ite (fun _ => ?_) fun _ => ?_
  · have before : s.token.first.Fills u.previousEnd := filled (.refl u)
    refine Completes.setKind rfl (NodeKind.Bare.fits _ _ _) (u.admits_of_bare _) fun _ => ?_
    refine Completes.bind_tame fun _ v toEnd => Completes.closeNode ?_ fun _ => trivial
    exact before.trans_reaches toEnd.onward.previousEnd
  · refine Completes.bind_tame fun _ w toName => Completes.ite (fun _ => ?_) fun _ => ends (toStar.trans toName)
    exact Completes.bind_tame fun _ x toFrom => ends ((toStar.trans toName).trans toFrom)
  · refine Completes.bind_looks fun _ => Completes.bind_looks fun _ => Completes.bind_looks fun _ => ?_
    refine Completes.ite (fun _ => ?_) fun _ => ?_
    · exact Completes.bind_tame fun _ w toList => ends (toStar.trans toList)
    · refine Completes.bind_tame fun _ w toItem => Completes.ite (fun _ => ?_) fun _ => ends (toStar.trans toItem)
      exact Completes.closeNode (filled (toStar.trans toItem)) fun _ => trivial

end Orderly

end BindingRepair.Script.Grammar
