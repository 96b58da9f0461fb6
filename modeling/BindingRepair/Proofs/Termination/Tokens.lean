/-
# Tokens, nodes and scopes come to an end

Looking at tokens, opening and closing nodes and entering scopes keep the place. Reading the current token
moves forward where one is left. Where none is left, no test of the current token is passed.
-/

import BindingRepair.Proofs.Grammar.Nodes
import BindingRepair.Proofs.Termination.Operations

set_option synthInstance.maxSize 20000
set_option synthInstance.maxHeartbeats 100000

namespace BindingRepair.Script

open Text

/-! ### No token -/

/-- The token is none that holds something. -/
def Token.IsNone (t : Token) : Prop :=
  t.kind = .endOfText ∨ t.kind = .invalid

section IsNone

variable {t : Token} (none : t.IsNone)
include none

@[simp]
theorem Token.IsNone.isPunctuator (mark : String) : t.isPunctuator mark = false := by
  rcases none with kind | kind
  · simp [Token.isPunctuator, kind]
  · simp [Token.isPunctuator, kind]

@[simp]
theorem Token.IsNone.isWord : t.isWord = false := by
  rcases none with kind | kind
  · simp [Token.isWord, kind]
  · simp [Token.isWord, kind]

theorem Token.IsNone.kind_identifier : (t.kind == .identifier) = false := by
  rcases none with kind | kind
  · rw [kind]
    rfl
  · rw [kind]
    rfl

theorem Token.IsNone.kind_punctuator : (t.kind == .punctuator) = false := by
  rcases none with kind | kind
  · rw [kind]
    rfl
  · rw [kind]
    rfl

@[simp]
theorem Token.IsNone.isKeyword (word : String) : t.isKeyword word = false := by
  rw [Token.isKeyword, none.isWord, Bool.false_and]

@[simp]
theorem Token.IsNone.opensWithGreater : t.opensWithGreater = false := by
  rcases none with kind | kind
  · simp [Token.opensWithGreater, kind]
  · simp [Token.opensWithGreater, kind]

@[simp]
theorem Token.IsNone.isTemplateStart : t.isTemplateStart = false := by
  rcases none with kind | kind
  · simp [Token.isTemplateStart, kind]
  · simp [Token.isTemplateStart, kind]

@[simp]
theorem Token.IsNone.namesBinding : Grammar.namesBinding t = false := by
  rcases none with kind | kind
  · simp [Grammar.namesBinding, kind]
  · simp [Grammar.namesBinding, kind]

end IsNone

/-- At the end of a text no token is read. -/
theorem Token.isNone_read (place : Cursor) (none : (read place).first.rest = []) : (read place).IsNone := by
  have here : (skipTrivia place).2.rest = [] := by
    rw [← first_readAt (skipTrivia place).1 (skipTrivia place).2]
    exact none
  show (readAt (skipTrivia place).1 (skipTrivia place).2).IsNone
  unfold readAt
  rw [here]
  exact .inl rfl

theorem Token.isNone_readChild (place : Cursor) (none : (readChild place).first.rest = []) :
    (readChild place).IsNone := by
  rw [(covers_readChild place).2] at none
  have nothing : place.peek? = Option.none := by rw [Cursor.peek?, none]; rfl
  unfold readChild
  rw [nothing]
  exact .inl rfl

namespace Grammar

variable {α β σ : Type} {origin : Cursor} {k need : Nat} {s t : State}

/-! ### Nodes and scopes -/

theorem State.size_addNode (s : State) (kind : NodeKind) (span : Span) (scope : ScopeId) :
    (s.addNode kind span scope).nodes.size = s.nodes.size + 1 := by
  rw [addNode]
  simp only [appendNode]
  split
  · simp
  · simp

theorem Stays.of_grown (token : t.token = s.token) (previousEnd : t.previousEnd = s.previousEnd)
    (depth : t.depth = s.depth) (nodes : s.nodes.size ≤ t.nodes.size) (scopes : s.scopes.size ≤ t.scopes.size)
    (opened : t.opened ⊆ s.opened) (scope : t.scope = s.scope) : Stays s t where
  token := token
  previousEnd := previousEnd
  depth := depth
  nodes := nodes
  scopes := scopes
  opened known id here := Nat.lt_of_lt_of_le (known id (opened here)) nodes
  scope known := by
    rw [State.KnowsScope, scope]
    exact Nat.lt_of_lt_of_le known scopes

instance (kind : NodeKind) (start : Nat) : Still (openNode kind start) := by
  apply still_modifyGet
  intro s
  have grown : s.nodes.size < (s.openNode kind start).nodes.size := by
    have size := s.size_addNode kind (Span.emptyAt start) s.scope
    show s.nodes.size < (s.addNode kind (Span.emptyAt start) s.scope).nodes.size
    omega
  refine ⟨rfl, rfl, rfl, Nat.le_of_lt grown, Nat.le_refl _, ?_, id⟩
  intro known id here
  rcases List.mem_cons.mp here with rfl | older
  · exact grown
  · exact Nat.lt_trans (known id older) grown

theorem stays_closeNodeAt (s : State) (id : NodeId) (stop : Nat) : Stays s (s.closeNodeAt id stop) := by
  have nodes : (s.closeNodeAt id stop).nodes.size = s.nodes.size := by simp [State.closeNodeAt]
  refine .of_grown rfl rfl rfl (Nat.le_of_eq nodes.symm) (Nat.le_refl _) ?_ rfl
  exact ((List.drop_sublist ..).trans (List.dropWhile_sublist _)).subset

instance (id : NodeId) (stop : Nat) : Still (closeNodeAt id stop) :=
  still_modify fun s => stays_closeNodeAt s id stop

instance (id : NodeId) : Still (closeNode id) :=
  still_modify fun s => stays_closeNodeAt s id s.previousEnd.offset

instance (id : NodeId) (kind : NodeKind) : Still (setKind id kind) :=
  still_modify fun s =>
    .of_grown rfl rfl rfl (by simp [State.setKind]) (Nat.le_refl _) (List.Subset.refl _) rfl

theorem State.size_le_addNode (s : State) (kind : NodeKind) (span : Span) (scope : ScopeId) :
    s.nodes.size ≤ (s.addNode kind span scope).nodes.size := by
  rw [size_addNode]
  exact Nat.le_succ _

instance (token : Token) : Still (refer token) :=
  still_modify fun s =>
    .of_grown rfl rfl rfl (s.size_le_addNode _ _ _) (Nat.le_refl _) (List.Subset.refl _) rfl

instance (token : Token) (site : BindingSite) : Still (Grammar.bind token site) :=
  still_modifyGet fun s =>
    .of_grown rfl rfl rfl (s.size_le_addNode _ _ _) (s.scopes.extends_declare _ _ _).size_le
      (List.Subset.refl _) rfl

instance (kind : ScopeKind) : Still (enterScope kind) := by
  apply still_modifyGet
  intro s
  have grown : (s.enterScope kind).scopes.size = s.scopes.size + 1 :=
    s.scopes.size_add kind (some s.scope)
  refine ⟨rfl, rfl, rfl, Nat.le_refl _, ?_, id, fun _ => s.knowsScope_enterScope kind⟩
  rw [grown]
  exact Nat.le_succ _

/-! ### Looking at tokens -/

instance : Still currentToken := by
  unfold currentToken
  infer_instance

instance : Still currentKind := by
  unfold currentKind
  infer_instance

instance : Still currentStart := by
  unfold currentStart
  infer_instance

instance : Still previousStop := by
  unfold previousStop
  infer_instance

instance : Still isTypescript := by
  unfold isTypescript
  infer_instance

instance : Still allowsElements := by
  unfold allowsElements
  infer_instance

instance (mark : String) : Still (isAt mark) := by
  unfold isAt
  infer_instance

instance (mark : String) : Still (isTypedAt mark) := by
  unfold isTypedAt
  infer_instance

instance (word : String) : Still (isAtWord word) := by
  unfold isAtWord
  infer_instance

instance : Still isAtEnd := by
  unfold isAtEnd
  infer_instance

instance : Still isAtBindingName := by
  unfold isAtBindingName
  infer_instance

instance : Still peek := by
  unfold peek
  infer_instance

instance : Still peekTwo := by
  unfold peekTwo
  infer_instance

instance (mark : String) : Still (peekIs mark) := by
  unfold peekIs
  infer_instance

instance (word : String) : Still (peekIsWord word) := by
  unfold peekIsWord
  infer_instance

instance : Still letDeclares := by
  unfold letDeclares
  infer_instance

instance : Still asyncFunctionAhead := by
  unfold asyncFunctionAhead
  infer_instance

instance : Still awaitOperates := by
  unfold awaitOperates
  infer_instance

instance : Still indexSignatureAhead := by
  unfold indexSignatureAhead
  infer_instance

instance : Still isAtClassName := by
  unfold isAtClassName
  infer_instance

instance : Still isAtGreater := by
  unfold isAtGreater
  infer_instance

instance : Still importDeclares := by
  unfold importDeclares
  infer_instance

instance : Still isAtExportName := by
  unfold isAtExportName
  apply Still.bind inferInstance
  intro kind
  split
  all_goals infer_instance

theorem State.AtEnd.isNone (ends : s.AtEnd) : s.token.IsNone :=
  ends.kind

/-- A test that no token passes that holds nothing. -/
theorem denies_of_isNone {p : Parser Bool} (test : Context → Token → Bool)
    (value : ∀ c s, p c s = .ok (test c s.token) s) (none : ∀ c t, t.IsNone → test c t = false) :
    Denies p where
  denies c s _ ends := by
    rw [value, none c s.token ends.isNone]

instance (mark : String) : Denies (isAt mark) :=
  denies_of_isNone (fun _ t => t.isPunctuator mark) (fun _ _ => rfl) fun _ _ none => none.isPunctuator mark

instance (mark : String) : Denies (isTypedAt mark) := by
  apply denies_of_isNone (fun c t => c.dialect.typescript && t.isPunctuator mark) fun _ _ => isTypedAt_apply mark
  intro c t none
  rw [none.isPunctuator, Bool.and_false]

instance (word : String) : Denies (isAtWord word) :=
  denies_of_isNone (fun _ t => t.isKeyword word) (fun _ _ => rfl) fun _ _ none => none.isKeyword word

instance : Denies isAtBindingName :=
  denies_of_isNone (fun _ t => namesBinding t) (fun _ _ => rfl) fun _ _ none => none.namesBinding

instance : Denies isAtGreater :=
  denies_of_isNone (fun _ t => t.opensWithGreater) (fun _ _ => rfl) fun _ _ none => none.opensWithGreater

theorem fails_token {f : Token → Parser α} (rest : ∀ t : Token, t.IsNone → Fails k need (f t)) :
    Fails k need (currentToken >>= f) where
  fails origin c s valid bound calls ends :=
    (rest s.token ends.isNone).fails origin c s valid bound calls ends

theorem denies_token {f : Token → Parser Bool} (rest : ∀ t : Token, t.IsNone → Denies (f t)) :
    Denies (currentToken >>= f) where
  denies c s bound ends := (rest s.token ends.isNone).denies c s bound ends

theorem settles_token {f : Token → Parser α} (rest : ∀ t : Token, t.IsNone → Settles (f t)) :
    Settles (currentToken >>= f) where
  settles origin c s valid bound ends := (rest s.token ends.isNone).settles origin c s valid bound ends

theorem stops_kind {f : TokenKind → Parser α} {good : α → Bool} (text : Stops k good (f .endOfText))
    (invalid : Stops k good (f .invalid)) : Stops k good (currentKind >>= f) where
  stops origin c s t a valid bound calls ends result := by
    have result : f s.token.kind c s = .ok a t := result
    rcases ends.kind with kind | kind
    · rw [kind] at result
      exact text.stops origin c s t a valid bound calls ends result
    · rw [kind] at result
      exact invalid.stops origin c s t a valid bound calls ends result

theorem fails_kind {f : TokenKind → Parser α} (text : Fails k need (f .endOfText))
    (invalid : Fails k need (f .invalid)) : Fails k need (currentKind >>= f) where
  fails origin c s valid bound calls ends := by
    show ∃ e t, f s.token.kind c s = .error e t ∧ FailsAt origin e t
    rcases ends.kind with kind | kind
    · rw [kind]
      exact text.fails origin c s valid bound calls ends
    · rw [kind]
      exact invalid.fails origin c s valid bound calls ends

/-! ### Reading tokens -/

/-- What has been read reaches from before a token that is left to behind it. -/
theorem State.Valid.passes (valid : s.Valid origin) (left : ¬ s.AtEnd) {place : Cursor}
    (fills : s.token.first.Fills place) : s.previousEnd.Passes place :=
  valid.sound.token.trans_passes (fills.passes (valid.rest_ne_nil left))

theorem State.Valid.bumped (valid : s.Valid origin) : s.bumped.Valid origin where
  behind := s.previousEnd_bumped ▸ valid.sound.reaches_last
  sound := valid.sound.bumped.1
  kind none := by
    rw [s.token_bumped] at none ⊢
    exact Token.isNone_read _ none
  opened := by
    intro id here
    rw [s.opened_bumped] at here
    rw [State.Knows, s.nodes_bumped]
    exact valid.opened id here
  scope := by
    rw [State.KnowsScope, s.scopes_bumped, s.scope_bumped]
    exact valid.scope

theorem State.Valid.passes_bumped (valid : s.Valid origin) (left : ¬ s.AtEnd) :
    s.previousEnd.Passes s.bumped.previousEnd :=
  valid.passes left valid.sound.bumped.2.2

theorem State.Valid.advances_bumped (valid : s.Valid origin) : Advances s s.bumped where
  previousEnd := valid.sound.bumped.2.1.previousEnd
  token left := .inl (valid.passes_bumped left)
  depth := s.depth_bumped
  nodes := by rw [s.nodes_bumped]
  scopes := by rw [s.scopes_bumped]

instance : Halts k need bump where
  ends _ _ _ valid _ _ := by
    rw [bump_apply]
    exact ⟨valid.bumped, valid.advances_bumped⟩

instance {good : Unit → Bool} : Strides k need good bump where
  passes _ _ _ _ _ valid _ _ left result _ := by
    rw [bump_apply] at result
    cases result
    exact valid.passes_bumped left

instance : Settles bump where
  settles origin c s valid _ ends := by
    use (), s.bumped, bump_apply, valid.bumped
    have none : s.bumped.token.first.rest = [] := by
      have shorter := (valid.sound.covers.fills.reaches.trans (Token.reaches_read s.token.last)).length_le
      rw [ends.rest] at shorter
      rw [s.token_bumped]
      exact List.length_eq_zero_iff.mp (Nat.le_zero.mp shorter)
    exact ⟨none, valid.bumped.kind none⟩

section Marks

variable (mark : String)

instance : Halts k need (eat mark) := by
  unfold eat
  infer_instance

instance : Strides k need id (eat mark) := by
  unfold eat
  infer_instance

instance : Denies (eat mark) := by
  unfold eat
  infer_instance

instance : Halts k need (eatWord mark) := by
  unfold eatWord
  infer_instance

instance : Strides k need id (eatWord mark) := by
  unfold eatWord
  infer_instance

instance : Denies (eatWord mark) := by
  unfold eatWord
  infer_instance

instance : Halts k need (eatTyped mark) := by
  unfold eatTyped
  infer_instance

instance : Strides k need id (eatTyped mark) := by
  unfold eatTyped
  infer_instance

instance : Halts k need (eatOptional mark) := by
  unfold eatOptional
  infer_instance

instance : Settles (eatOptional mark) := by
  unfold eatOptional
  infer_instance

instance : Halts k need (eatOptionalWord mark) := by
  unfold eatOptionalWord
  infer_instance

instance : Settles (eatOptionalWord mark) := by
  unfold eatOptionalWord
  infer_instance

instance : Serves k need (expect mark) := by
  unfold expect
  constructor
  all_goals infer_instance

instance : Serves k need (expectWord mark) := by
  unfold expectWord
  constructor
  all_goals infer_instance

end Marks

/-- Nothing but counters and marks has changed. -/
theorem Stays.of_sameTree (same : s.SameTree t) (token : t.token = s.token)
    (previousEnd : t.previousEnd = s.previousEnd) (depth : t.depth = s.depth) : Stays s t :=
  .of_grown token previousEnd depth (by rw [same.nodes]) (by rw [same.scopes])
    (by rw [same.opened]; exact List.Subset.refl _) same.scope

instance : Halts k need consumeSemicolon := by
  have explicit : Still (modify fun s : State => { s with explicitSemicolons := s.explicitSemicolons + 1 } :
      Parser PUnit) :=
    still_modify fun _ => .of_sameTree ⟨rfl, rfl, rfl, rfl, rfl⟩ rfl rfl rfl
  have inserted : Still (modify fun s : State => { s with insertedSemicolons := s.insertedSemicolons + 1 } :
      Parser PUnit) :=
    still_modify fun _ => .of_sameTree ⟨rfl, rfl, rfl, rfl, rfl⟩ rfl rfl rfl
  unfold consumeSemicolon
  infer_instance

/-! ### Reading again -/

/-- Nothing is read again as something. -/
class KeepsNone (again : Token → Token) : Prop where
  kind : ∀ t, t.first.rest = [] → t.IsNone → (again t).IsNone

instance : KeepsNone Token.asRegex where
  kind t none _ := by
    have body : t.first.next.rest = [] := by simp [Cursor.next, none]
    unfold Token.asRegex
    dsimp only
    rw [body]
    exact .inr rfl

instance : KeepsNone Token.asTemplateContinuation where
  kind t none _ := by
    have body : t.first.next.rest = [] := by simp [Cursor.next, none]
    unfold Token.asTemplateContinuation
    dsimp only
    rw [body]
    exact .inr rfl

instance : KeepsNone Token.asElementName where
  kind t _ isNone := by
    rcases isNone with kind | kind
    · simp [Token.asElementName, Token.IsNone, kind]
    · simp [Token.asElementName, Token.IsNone, kind]

instance : KeepsNone Token.asAttributeString where
  kind t none isNone := by
    have nothing : t.first.peek? = Option.none := by simp [Cursor.peek?, none]
    unfold Token.asAttributeString
    rw [nothing]
    exact isNone

instance : KeepsNone Token.asGreater where
  kind t _ isNone := by
    rw [Token.asGreater, isNone.opensWithGreater]
    exact isNone

instance (again : Token → Token) [rereads : Rereads again] [keeps : KeepsNone again] :
    Halts k need (reread again) where
  ends origin c s valid _ _ := by
    have first := rereads.first s.token
    constructor
    · exact {
        behind := valid.behind
        sound := ⟨first ▸ valid.sound.reaches_first, first ▸ valid.sound.token, rereads.covers _ valid.sound.covers⟩
        kind := fun none => keeps.kind s.token (first ▸ none) (valid.kind (first ▸ none))
        opened := valid.opened
        scope := valid.scope }
    · exact {
        previousEnd := .refl _
        token := fun left => .inr fun ends => valid.rest_ne_nil left (first ▸ ends.rest)
        depth := rfl
        nodes := Nat.le_refl _
        scopes := Nat.le_refl _ }

/-- What is read as a child behind a place. -/
theorem State.Valid.child (valid : s.Valid origin) {place : Cursor} (reaches : origin.Reaches place) :
    State.Valid origin { s with previousEnd := place, token := Token.readChild place } where
  behind := reaches
  sound := by
    have ⟨covers, first⟩ := Token.covers_readChild place
    have here : place.Reaches (Token.readChild place).first := by
      rw [first]
      exact .refl place
    exact ⟨reaches.trans here, here, covers⟩
  kind none := Token.isNone_readChild place none
  opened := valid.opened
  scope := valid.scope

instance : Halts k need toChildBehind where
  ends _ _ s valid _ _ := by
    constructor
    · exact valid.child valid.sound.reaches_last
    · exact {
        previousEnd := valid.sound.token.trans valid.sound.covers.fills.reaches
        token := fun left => .inl (valid.passes left valid.sound.covers.fills)
        depth := rfl
        nodes := Nat.le_refl _
        scopes := Nat.le_refl _ }

instance {good : Unit → Bool} : Strides k need good toChildBehind where
  passes _ _ _ _ _ valid _ _ left result _ := by
    cases result
    exact valid.passes left valid.sound.covers.fills

instance : Halts k need toChild where
  ends _ _ s valid _ _ := by
    constructor
    · exact valid.child valid.behind
    · exact {
        previousEnd := .refl _
        token := fun left => .inr fun ends => by
          have none := (Token.covers_readChild s.previousEnd).2 ▸ ends.rest
          have shorter := valid.sound.token.length_le
          rw [none] at shorter
          exact valid.rest_ne_nil left (List.length_eq_zero_iff.mp (Nat.le_zero.mp shorter))
        depth := rfl
        nodes := Nat.le_refl _
        scopes := Nat.le_refl _ }

/-! ### What surrounds a parser -/

section Surroundings

variable {p : Parser α}

/-- The state one level deeper. -/
def State.deeper (s : State) : State :=
  { s with depth := s.depth + 1 }

theorem nested_apply {c : Context} (fits : s.depth < maxDepth) : nested p c s = match p c s.deeper with
    | .ok a t => .ok a { t with depth := t.depth - 1 }
    | .error e t => .error e t := by
  have fits : ¬ s.depth + 1 > maxDepth := by omega
  simp only [nested, bind_apply, modify_apply, get_apply, fits, if_false, pure_apply]
  rfl

theorem nested_error {c : Context} (deep : ¬ s.depth < maxDepth) :
    nested p c s = .error ⟨s.token.start, .nestedTooDeeply⟩ s.deeper := by
  have deep : s.depth + 1 > maxDepth := by omega
  simp only [nested, bind_apply, modify_apply, get_apply, deep, if_true]
  rfl

theorem State.Valid.deeper (valid : s.Valid origin) : s.deeper.Valid origin :=
  ⟨valid.behind, valid.sound.of_same rfl rfl, valid.kind, valid.opened, valid.scope⟩

theorem State.Valid.withDepth (valid : s.Valid origin) (depth : Nat) :
    State.Valid origin { s with depth } :=
  ⟨valid.behind, valid.sound.of_same rfl rfl, valid.kind, valid.opened, valid.scope⟩

theorem State.atEnd_deeper : s.deeper.AtEnd ↔ s.AtEnd :=
  ⟨fun ends => ⟨ends.rest, ends.kind⟩, fun ends => ⟨ends.rest, ends.kind⟩⟩

theorem Room.deeper (room : Room k need s) : Room k need s.deeper :=
  ⟨room.calls, fun ends => room.token (State.atEnd_deeper.mp ends)⟩

instance [halts : Halts k need p] : Halts k need (nested p) where
  ends origin c s valid bound room := by
    by_cases fits : s.depth < maxDepth
    · have ends := halts.ends origin c s.deeper valid.deeper bound room.deeper
      rw [nested_apply fits]
      cases result : p c s.deeper with
      | error e t =>
          rw [result] at ends
          exact ends
      | ok a t =>
          rw [result] at ends
          have ⟨valid', advances⟩ := ends
          constructor
          · exact valid'.withDepth _
          · exact {
              previousEnd := advances.previousEnd
              token := fun left => (advances.token (mt State.atEnd_deeper.mp left)).imp_right fun left' ends' =>
                left' ⟨ends'.rest, ends'.kind⟩
              depth := by
                show t.depth - 1 = s.depth
                rw [advances.depth]
                rfl
              nodes := advances.nodes
              scopes := advances.scopes }
    · rw [nested_error fits]
      exact ⟨nofun, valid.sound.reaches_first.marks, valid.deeper⟩

instance {good : α → Bool} [strides : Strides k need good p] : Strides k need good (nested p) where
  passes origin c s t a valid bound room left result is := by
    by_cases fits : s.depth < maxDepth
    · rw [nested_apply fits] at result
      cases inner : p c s.deeper with
      | error e u =>
          rw [inner] at result
          cases result
      | ok b u =>
          rw [inner] at result
          cases result
          exact strides.passes origin c s.deeper u a valid.deeper bound room.deeper
            (mt State.atEnd_deeper.mp left) inner is
    · rw [nested_error fits] at result
      cases result

instance [fails : Fails k need p] : Fails k need (nested p) where
  fails origin c s valid bound calls ends := by
    by_cases fits : s.depth < maxDepth
    · have ⟨e, t, result, failsAt⟩ :=
        fails.fails origin c s.deeper valid.deeper bound calls (State.atEnd_deeper.mpr ends)
      use e, t
      rw [nested_apply fits, result]
      exact ⟨rfl, failsAt⟩
    · rw [nested_error fits]
      exact ⟨_, _, rfl, nofun, valid.sound.reaches_first.marks, valid.deeper⟩

instance [Serves k need p] : Serves k need (nested p) :=
  ⟨inferInstance, inferInstance, inferInstance⟩

theorem still_exporting (exporting : Bool) :
    Still (modify fun s : State => { s with exporting } : Parser PUnit) :=
  still_modify fun _ => .of_sameTree ⟨rfl, rfl, rfl, rfl, rfl⟩ rfl rfl rfl

theorem still_inGenerator (inGenerator : Bool) :
    Still (modify fun s : State => { s with inGenerator } : Parser PUnit) :=
  still_modify fun _ => .of_sameTree ⟨rfl, rfl, rfl, rfl, rfl⟩ rfl rfl rfl

section Flags

variable (flag : Bool)

instance [Halts k need p] : Halts k need (withExporting flag p) := by
  have := still_exporting
  unfold withExporting
  infer_instance

instance {good : α → Bool} [Halts k need p] [Strides k need always p] :
    Strides k need good (withExporting flag p) := by
  have := still_exporting
  unfold withExporting
  infer_instance

instance [Fails k need p] : Fails k need (withExporting flag p) := by
  have := still_exporting
  unfold withExporting
  infer_instance

instance [Halts k need p] : Halts k need (withGenerator flag p) := by
  have := still_inGenerator
  unfold withGenerator
  infer_instance

instance {good : α → Bool} [Halts k need p] [Strides k need always p] :
    Strides k need good (withGenerator flag p) := by
  have := still_inGenerator
  unfold withGenerator
  infer_instance

instance [Fails k need p] : Fails k need (withGenerator flag p) := by
  have := still_inGenerator
  unfold withGenerator
  infer_instance

end Flags

instance (kind : NodeKind) (start : Nat) [Halts k need p] : Halts k need (within kind start p) := by
  unfold within
  infer_instance

instance (kind : NodeKind) (start : Nat) {good : α → Bool} [Halts k need p] [Strides k need always p] :
    Strides k need good (within kind start p) := by
  unfold within
  infer_instance

instance (kind : NodeKind) (start : Nat) [Fails k need p] : Fails k need (within kind start p) := by
  unfold within
  infer_instance

/-- The scope that a parser begins in is still known behind it. -/
theorem keepingScope_apply {c : Context} : keepingScope p c s = match p c s with
    | .ok a t => .ok a { t with scope := s.scope }
    | .error e t => .error e t := by
  rw [keepingScope, bind_ok get_apply]
  cases result : p c s with
  | ok a t =>
      rw [bind_ok result]
      rfl
  | error e t => rw [bind_apply, result]

instance [halts : Halts k need p] : Halts k need (keepingScope p) where
  ends origin c s valid bound room := by
    have ends := halts.ends origin c s valid bound room
    rw [keepingScope_apply]
    cases result : p c s with
    | error e t =>
        rw [result] at ends
        exact ends
    | ok a t =>
        rw [result] at ends
        have ⟨valid', advances⟩ := ends
        constructor
        · exact ⟨valid'.behind, valid'.sound.of_same rfl rfl, valid'.kind, valid'.opened,
            Nat.lt_of_lt_of_le valid.scope advances.scopes⟩
        · exact ⟨advances.previousEnd, fun left => (advances.token left).imp_right fun left' ends' =>
            left' ⟨ends'.rest, ends'.kind⟩, advances.depth, advances.nodes, advances.scopes⟩

instance {good : α → Bool} [strides : Strides k need good p] : Strides k need good (keepingScope p) where
  passes origin c s t a valid bound room left result is := by
    rw [keepingScope_apply] at result
    cases inner : p c s with
    | error e u =>
        rw [inner] at result
        cases result
    | ok b u =>
        rw [inner] at result
        cases result
        exact strides.passes origin c s u a valid bound room left inner is

instance [fails : Fails k need p] : Fails k need (keepingScope p) where
  fails origin c s valid bound calls ends := by
    have ⟨e, t, result, failsAt⟩ := fails.fails origin c s valid bound calls ends
    use e, t
    rw [keepingScope_apply, result]
    exact ⟨rfl, failsAt⟩

section Scopes

variable (kind : ScopeKind)

instance [Halts k need p] : Halts k need (inScope kind p) := by
  unfold inScope
  infer_instance

instance {good : α → Bool} [Strides k need good p] : Strides k need good (inScope kind p) := by
  unfold inScope
  infer_instance

instance [Fails k need p] : Fails k need (inScope kind p) := by
  unfold inScope
  infer_instance

end Scopes

end Surroundings

/-! ### Names and directives -/

instance (site : BindingSite) : Halts k need (bindCurrent site) := by
  unfold bindCurrent
  infer_instance

instance (site : BindingSite) {good : NodeId → Bool} : Strides k need good (bindCurrent site) := by
  unfold bindCurrent
  infer_instance

instance (kind : BindingKind) : Halts k need (bindName kind) := by
  unfold bindName
  infer_instance

instance (kind : BindingKind) {good : NodeId → Bool} : Strides k need good (bindName kind) := by
  unfold bindName
  infer_instance

section Directives

/-- A string that may be a statement of its own. -/
def directive (last : Option Nat) : Parser (Sum (Option Nat) (Option Nat)) := do
  if (← currentKind) != .string then return .inr last
  let next ← peek
  unless next.kind == .endOfText || next.newlineBefore || next.isPunctuator ";" ||
      next.isPunctuator "\x7d" do
    return .inr last
  within .statement (← currentStart) do
    bump
    consumeSemicolon
  return .inl (some (← previousStop))

theorem directives_eq : directives = loop none directive :=
  rfl

instance (last : Option Nat) : Halts k need (directive last) := by
  unfold directive
  infer_instance

instance (last : Option Nat) : Strides k need Sum.isLeft (directive last) := by
  unfold directive
  infer_instance

instance (last : Option Nat) : Stops k Sum.isLeft (directive last) := by
  apply stops_kind
  · exact inferInstanceAs (Stops k Sum.isLeft (pure (.inr last)))
  · exact inferInstanceAs (Stops k Sum.isLeft (pure (.inr last)))

instance : Halts k need directives := by
  rw [directives_eq]
  infer_instance

end Directives

end Grammar

end BindingRepair.Script
