/-
# Levels of nesting

A level is counted for an item, for an expression without commas and for the operand of a prefix operator,
but not for the operand of `new`, for what a power is raised to, or for what an export declares. Chains of
these are read whatever their length, by calls that nest as deep as the chain is long.
-/

import BindingRepair.Proofs.Grammar.Declared
import BindingRepair.Proofs.Lexer.Words

namespace BindingRepair.Script

open Text

variable {kind : TokenKind} {word : String} {words : List String} {t : Token}

/-! ### Spaced words -/

/-- Words with a blank before each. -/
def spaced (words : List String) : List Char :=
  words.flatMap fun word => ' ' :: word.toList

namespace Token

/-- The words, with a blank before each, are what is left of the text from the token on. -/
def Before (t : Token) (words : List String) : Prop :=
  ∃ offset, t = read ⟨offset, spaced words⟩

/-- The token is a word of a kind, with more words behind it. -/
structure Shows (t : Token) (kind : TokenKind) (word : String) (words : List String) : Prop where
  kind : t.kind = kind
  text : t.text = word
  escaped : t.escaped = false
  behind : t.following.Before words

namespace Shows

theorem isPunctuator (shows : t.Shows kind word words) (mark : String) :
    t.isPunctuator mark = (kind == .punctuator && word == mark) := by
  rw [Token.isPunctuator, shows.kind, shows.text]

theorem isWord (shows : t.Shows kind word words) : t.isWord = (kind == .identifier) := by
  rw [Token.isWord, shows.kind, shows.escaped, Bool.not_false, Bool.and_true]

theorem isKeyword (shows : t.Shows kind word words) (other : String) :
    t.isKeyword other = (kind == .identifier && word == other) := by
  rw [Token.isKeyword, shows.isWord, shows.text]

theorem namesBinding (shows : t.Shows kind word words) :
    Grammar.namesBinding t = (kind == .identifier && !isReservedWord word) := by
  rw [Grammar.namesBinding, shows.kind, shows.escaped, shows.text, Bool.false_or]

end Shows

/-! ### Ends -/

theorem Before.kind_eq (ended : t.Before []) : t.kind = .endOfText := by
  obtain ⟨offset, rfl⟩ := ended
  have none : triviaEnd .blanks false offset [] = (false, ⟨offset, []⟩) := rfl
  simp [read, skipTrivia, spaced, Cursor.startsWith, none, readAt, atEnd]

theorem Before.isPunctuator (ended : t.Before []) (mark : String) : t.isPunctuator mark = false := by
  simp [Token.isPunctuator, ended.kind_eq]

theorem Before.isKeyword (ended : t.Before []) (word : String) : t.isKeyword word = false := by
  simp [Token.isKeyword, Token.isWord, ended.kind_eq]

end Token

/-- A word is read as one token of a kind wherever blanks separate it from others. -/
def Stands (kind : TokenKind) (word : String) : Prop :=
  ∀ words offset, Token.read ⟨offset, spaced (word :: words)⟩ =
    Token.written kind false (offset + 1) word.toList (spaced words)

theorem Stands.shows (stands : Stands kind word) (here : t.Before (word :: words)) :
    t.Shows kind word words := by
  obtain ⟨offset, rfl⟩ := here
  rw [stands words offset]
  exact ⟨rfl, String.ofList_toList, rfl, offset + 1 + byteLength word.toList, rfl⟩

theorem blank_of_mem : ∀ c ∈ [' '], Unicode.isBlank c = true :=
  List.forall_mem_singleton.mpr (by decide)

theorem stands_name (identifier : isIdentifier word = true) : Stands .identifier word := by
  intro words offset
  have ends : endsIdentifier (spaced words) = true := by
    cases words with
    | nil => rfl
    | cons other words => exact endsIdentifier_of_isBlank (by decide) _
  exact Token.read_identifier blank_of_mem offset identifier ends

theorem stands_power : Stands .punctuator "**" := by
  intro words offset
  have here := Token.read_append blank_of_mem (c := '*') (by decide) (by decide) offset ('*' :: spaced words)
  refine here.trans ?_
  cases words with
  | nil => exact Token.between_append .punctuator false (offset + 1) ['*', '*'] []
  | cons other words => exact Token.between_append .punctuator false (offset + 1) ['*', '*'] (spaced (other :: words))

theorem stands_not : Stands .punctuator "!" := by
  intro words offset
  have here := Token.read_append blank_of_mem (c := '!') (by decide) (by decide) offset (spaced words)
  refine here.trans ?_
  cases words with
  | nil => exact Token.between_append .punctuator false (offset + 1) ['!'] []
  | cons other words => exact Token.between_append .punctuator false (offset + 1) ['!'] (spaced (other :: words))

theorem stands_x : Stands .identifier "x" :=
  stands_name (by decide)

theorem stands_new : Stands .identifier "new" :=
  stands_name (by decide)

theorem stands_export : Stands .identifier "export" :=
  stands_name (by decide)

namespace Grammar

variable {α β : Type} {c : Context} {s : State} {rules : Rules}

/-- The end of the text goes on with nothing. -/
theorem endsExpression_of_before (ended : t.Before []) (typescript : Bool) : EndsExpression typescript t := by
  apply endsExpression_iff.mp
  simp [continuesExpression, continuingMarks, Token.isTemplateStart, ended.isPunctuator, ended.isKeyword,
    Token.isWord, ended.kind_eq]

/-! ### Reading words -/

/-- The parser reads up to the words, and ends on the level that it began on. -/
def Reads (p : Parser α) (c : Context) (s : State) (words : List String) : Prop :=
  ∃ a t, p c s = .ok a t ∧ t.token.Before words ∧ t.depth = s.depth

theorem Reads.nested {p : Parser α} (shallow : s.depth < maxDepth)
    (inner : Reads p c { s with depth := s.depth + 1 } words) : Reads (nested p) c s words := by
  obtain ⟨a, t, ok, before, same⟩ := inner
  replace same : t.depth = s.depth + 1 := same
  exact ⟨a, { t with depth := s.depth }, nested_ok shallow (ok.trans (by rw [← same])) rfl, before, rfl⟩

/-- A name is read as an operand. -/
theorem reads_name (shows : s.token.Shows .identifier "x" words)
    (noArrow : s.token.following.isPunctuator "=>" = false) : Reads (primary rules) c s words := by
  have opens : OpensName s.token :=
    { word := shows.isWord
      plain := by rw [shows.text]; decide
      noArrow := fun _ => noArrow
      name := by rw [shows.text]; decide }
  refine ⟨.other, (s.refer s.token).bumped, primary_name opens, ?_, State.depth_bumped _⟩
  rw [State.token_bumped]
  exact shows.behind

/-! ### Operands of constructions -/

/-- A name behind as many times the word that makes an operand a construction. -/
def constructions (n : Nat) : List String :=
  List.replicate n "new" ++ ["x"]

/-- At the end of the text nothing is accessed of what is constructed. -/
theorem constructorAccesses_of_before (ended : s.token.Before []) (bounded : 0 < c.bound) :
    repeatWhile (constructorAccess rules) c s = .ok () s := by
  have none : constructorAccess rules c s = .ok false s := by
    simp [constructorAccess, eatIndex, typeArguments, bind_apply, eat_apply, ended.isPunctuator,
      Token.isTemplateStart, ended.kind_eq]
  exact repeatWhile_done bounded none

theorem construction_of_name (shows : s.token.Shows .identifier "x" []) (bounded : 0 < c.bound) :
    Reads (construction rules) c s [] := by
  obtain ⟨a, t, ok, ended, same⟩ : Reads (primary rules) c s [] :=
    reads_name shows (shows.behind.isPunctuator _)
  have accesses : repeatWhile (constructorAccess rules) c t = .ok () t :=
    constructorAccesses_of_before ended bounded
  refine ⟨.other, t, ?_, ended, same⟩
  simp [construction, bind_apply, eat_apply, shows.isPunctuator, shows.isKeyword, ok, accesses, ended.isPunctuator]

theorem construction_of_new (shows : s.token.Shows .identifier "new" words) (bounded : 0 < c.bound)
    (inner : Reads (rules .construction) c s.bumped []) : Reads (construction rules) c s [] := by
  obtain ⟨a, t, ok, ended, same⟩ := inner
  have accesses : repeatWhile (constructorAccess rules) c t = .ok () t :=
    constructorAccesses_of_before ended bounded
  refine ⟨.other, t, ?_, ended, same.trans s.depth_bumped⟩
  simp [construction, bind_apply, eat_apply, shows.isPunctuator, shows.isKeyword, ok, accesses, ended.isPunctuator]

theorem reads_construction (n m : Nat) (here : s.token.Before (constructions n)) (bounded : 0 < c.bound) :
    Reads (derive (n + m + 1) .construction) c s [] := by
  induction n generalizing s with
  | zero => exact construction_of_name (stands_x.shows here) bounded
  | succ n ih =>
      have shows : s.token.Shows .identifier "new" (constructions n) := stands_new.shows here
      have behind : s.bumped.token.Before (constructions n) := by
        rw [State.token_bumped]
        exact shows.behind
      rw [Nat.add_right_comm n 1 m]
      exact construction_of_new shows bounded (ih behind)

/-- A construction is an operand as a name is one. -/
theorem reads_callee (n m : Nat) (here : s.token.Before (constructions n)) (bounded : 0 < c.bound) :
    Reads (derive (n + m + 1) .callee) c s [] := by
  cases n with
  | zero =>
      have shows := stands_x.shows here
      obtain ⟨a, t, ok, ended, same⟩ : Reads (primary (derive (0 + m))) c s [] :=
        reads_name shows (shows.behind.isPunctuator _)
      have noNew : s.token.isKeyword "new" = false := by simp [shows.isKeyword]
      exact ⟨a, t, callee_of_primary (endsExpression_of_before ended _) noNew bounded ok, ended, same⟩
  | succ n =>
      have shows : s.token.Shows .identifier "new" (constructions n) := stands_new.shows here
      obtain ⟨a, t, ok, ended, same⟩ := reads_construction n m (c := c) (s := s.bumped)
        (by rw [State.token_bumped]; exact shows.behind) bounded
      rw [← Nat.add_right_comm] at ok
      have round : access (derive (n + 1 + m)) c t = .ok false t := access_of_ends (endsExpression_of_before ended _)
      refine ⟨a, t, ?_, ended, same.trans s.depth_bumped⟩
      show callee (derive (n + 1 + m)) c s = .ok a t
      simp only [callee, bind_apply, isAtWord_apply, shows.isKeyword, beq_self_eq_true, Bool.and_true, if_true,
        bump_apply, ok]
      exact loop_done bounded (by simp [bind_apply, round])

/-! ### Expressions -/

/-- The words that begin a unary operation or an arrow function, or do so in some places. -/
def operatingWords : List String :=
  ["yield", "async", "await", "typeof", "void", "delete"]

theorem begins_of_shows (shows : t.Shows .identifier word words) (plain : word ∉ operatingWords)
    (noArrow : t.following.isPunctuator "=>" = false) : BeginsOperand c t := by
  simp only [operatingWords, List.mem_cons, List.not_mem_nil, or_false, not_or] at plain
  refine ⟨by simp [shows.isKeyword, plain], by simp [shows.isPunctuator], ?_, ?_⟩
  · rintro s rfl
    simp [isAtUnaryOperator, bind_apply, shows.kind, shows.text, shows.isKeyword, plain]
  · rintro s rfl
    simp [arrowAhead, bind_apply, shows.isWord, shows.text, shows.isPunctuator, noArrow, plain]

/-- An expression without commas begins with the token: a construction, or a name, perhaps with a power
behind it. -/
structure Heads (t : Token) : Prop where
  shows : ∃ word words, (word = "x" ∨ word = "new") ∧ t.Shows .identifier word words
  noMark : ∀ mark, mark ≠ "**" → t.following.isPunctuator mark = false

theorem Heads.begins (heads : Heads t) : BeginsOperand c t := by
  obtain ⟨word, words, named, shows⟩ := heads.shows
  have plain : word ∉ operatingWords := by
    rcases named with rfl | rfl
    · decide
    · decide
  exact begins_of_shows shows plain (heads.noMark "=>" (by decide))

theorem heads_constructions (n : Nat) (here : t.Before (constructions n)) : Heads t := by
  cases n with
  | zero =>
      have shows := stands_x.shows here
      exact ⟨⟨"x", [], .inl rfl, shows⟩, fun mark _ => shows.behind.isPunctuator mark⟩
  | succ n =>
      have shows : t.Shows .identifier "new" (constructions n) := stands_new.shows here
      refine ⟨⟨"new", _, .inr rfl, shows⟩, fun mark _ => ?_⟩
      cases n with
      | zero => simp [(stands_x.shows shows.behind).isPunctuator]
      | succ n =>
          have next : t.following.Shows .identifier "new" (constructions n) := stands_new.shows shows.behind
          simp [next.isPunctuator]

theorem reads_unary {k : Nat} (heads : Heads s.token) (shallow : s.depth < maxDepth)
    (inner : Reads (derive k .callee) c { s with depth := s.depth + 1 } words)
    (noUpdate : ∀ t : Token, t.Before words → t.isPunctuator "++" = false ∧ t.isPunctuator "--" = false) :
    Reads (derive (k + 1) .unary) c s words := by
  apply Reads.nested shallow
  obtain ⟨a, t, ok, before, same⟩ := inner
  obtain ⟨noIncrement, noDecrement⟩ := noUpdate _ before
  refine ⟨a, t, unary_of_updated heads.begins ?_, before, same⟩
  simp [updated, bind_apply, ok, noIncrement, noDecrement]

theorem reads_assignment {k : Nat} (heads : Heads s.token) (shallow : s.depth < maxDepth)
    (inner : Reads (derive k (.binary 0 false)) c { s with depth := s.depth + 1 } []) :
    Reads (derive (k + 1) (.assignment false)) c s [] := by
  apply Reads.nested shallow
  obtain ⟨a, t, ok, ended, same⟩ := inner
  have ends := endsExpression_of_before ended c.dialect.typescript
  exact ⟨a, t, assignment_of_conditional false heads.begins ends (conditional_of_binary ends false ok), ended, same⟩

/-- A construction counts one level as an operand, whatever is constructed. -/
theorem reads_binary (n m : Nat) {precedence : Nat} (here : s.token.Before (constructions n))
    (bounded : 0 < c.bound) (shallow : s.depth < maxDepth) :
    Reads (derive (n + m + 3) (.binary precedence false)) c s [] := by
  have operand : Reads (derive (n + m + 2) .unary) c s [] :=
    reads_unary (heads_constructions n here) shallow (reads_callee n m here bounded)
      fun _ ended => ⟨ended.isPunctuator _, ended.isPunctuator _⟩
  obtain ⟨a, t, ok, ended, same⟩ := operand
  exact ⟨a, t, binary_of_unary (endsExpression_of_before ended _) precedence false bounded ok, ended, same⟩

/-! ### Powers -/

/-- A name raised to the power of a name as many times. -/
def powers (n : Nat) : List String :=
  "x" :: (List.replicate n ["**", "x"]).flatten

theorem heads_powers (n : Nat) (here : t.Before (powers n)) : Heads t := by
  cases n with
  | zero => exact heads_constructions 0 here
  | succ n =>
      have shows : t.Shows .identifier "x" ("**" :: powers n) := stands_x.shows here
      refine ⟨⟨"x", _, .inl rfl, shows⟩, fun mark different => ?_⟩
      simp [(stands_power.shows shows.behind).isPunctuator, Ne.symm different]

/-- An operand ends before the operator of a power. -/
theorem access_of_power (shows : s.token.Shows .punctuator "**" words) :
    access rules c s = .ok false s := by
  simp [access, eatIndex, typeArguments, bind_apply, eat_apply, shows.isPunctuator, Token.isTemplateStart,
    shows.kind]

theorem callee_of_power (shows : s.token.Shows .identifier "x" ("**" :: words)) (bounded : 0 < c.bound) :
    Reads (callee rules) c s ("**" :: words) := by
  obtain ⟨a, t, ok, before, same⟩ : Reads (primary rules) c s ("**" :: words) :=
    reads_name shows (by simp [(stands_power.shows shows.behind).isPunctuator])
  have noNew : s.token.isKeyword "new" = false := by simp [shows.isKeyword]
  have round : access rules c t = .ok false t := access_of_power (stands_power.shows before)
  refine ⟨a, t, ?_, before, same⟩
  simp only [callee, bind_apply, isAtWord_apply, noNew, Bool.false_eq_true, if_false, ok]
  exact loop_done bounded (by simp [bind_apply, round])

theorem binaryStep_of_power {precedence : Nat} (shows : s.token.Shows .punctuator "**" words)
    (loose : precedence < 12) (inner : Reads (rules (.binary 11 false)) c s.bumped []) :
    ∃ t, binaryStep rules precedence false c s = .ok true t ∧ t.token.Before [] ∧ t.depth = s.depth := by
  obtain ⟨a, t, ok, ended, same⟩ := inner
  refine ⟨t, ?_, ended, same.trans s.depth_bumped⟩
  simp only [binaryStep, bind_apply, currentToken_apply, shows.kind, shows.isWord]
  rw [shows.text]
  simp [binaryPrecedence?, Nat.not_le.mpr loose, bind_apply, ok]

/-- What a power is raised to counts no level. -/
theorem reads_power (n m : Nat) {precedence : Nat} (loose : precedence < 12)
    (here : s.token.Before (powers n)) (bounded : 1 < c.bound) (shallow : s.depth < maxDepth) :
    Reads (derive (n + m + 3) (.binary precedence false)) c s [] := by
  induction n generalizing s precedence with
  | zero => exact reads_binary 0 m here (Nat.lt_of_succ_lt bounded) shallow
  | succ n ih =>
      have shows : s.token.Shows .identifier "x" ("**" :: powers n) := stands_x.shows here
      have operand : Reads (derive (n + m + 3) .unary) c s ("**" :: powers n) :=
        reads_unary (heads_powers (n + 1) here) shallow (callee_of_power shows (Nat.lt_of_succ_lt bounded))
          fun t before => by simp [(stands_power.shows before).isPunctuator]
      obtain ⟨a, t, first, before, same⟩ := operand
      have raised := stands_power.shows before
      have exponent : Reads (derive (n + m + 3) (.binary 11 false)) c t.bumped [] :=
        ih (by decide) (t.token_bumped ▸ raised.behind) (by rwa [State.depth_bumped, same])
      obtain ⟨u, step, ended, same'⟩ := binaryStep_of_power raised loose exponent
      have last : binaryStep (derive (n + m + 3)) precedence false c u = .ok false u :=
        binaryStep_of_ends (endsExpression_of_before ended _) precedence false
      rw [Nat.add_right_comm n 1 m]
      refine ⟨.other, u, ?_, ended, same'.trans same⟩
      show binary (derive (n + m + 3)) precedence false c s = .ok .other u
      rw [binary, bind_ok first]
      exact loop_twice .other (t := u) (u := u) bounded (by simp [bind_apply, step]) (by simp [bind_apply, last])

/-! ### Statements -/

theorem Reads.within {p : Parser α} {node : NodeKind} {start : Nat}
    (inner : Reads p c (s.openNode node start) words) : Reads (within node start p) c s words := by
  obtain ⟨a, t, ok, before, same⟩ := inner
  refine ⟨a, t.closeNode ⟨s.nodes.size⟩, ?_, before, same⟩
  simp [Grammar.within, bind_apply, openNode_apply, ok, closeNode]

theorem Reads.withExporting {p : Parser α} {exporting : Bool} (inner : Reads p c { s with exporting } words) :
    Reads (withExporting exporting p) c s words := by
  obtain ⟨a, t, ok, before, same⟩ := inner
  refine ⟨a, { t with exporting := s.exporting }, ?_, before, same⟩
  simp [Grammar.withExporting, bind_apply, ok]

/-- A statement that begins with no keyword ends with its expression at the end of the text. -/
theorem reads_plainStatement (heads : Heads s.token) (value : Reads (rules (.assignment false)) c s []) :
    Reads (plainStatement rules) c s [] := by
  obtain ⟨word, words, -, shows⟩ := heads.shows
  obtain ⟨a, t, ok, ended, same⟩ := value
  have semicolon := consumeSemicolon_inserted (c := c) (ended.isPunctuator ";")
    (by simp [endsStatement, ended.kind_eq])
  refine ⟨(), { t with insertedSemicolons := t.insertedSemicolons + 1 }, ?_, ended, same⟩
  simp [plainStatement, anyExpression, expression, bind_apply, shows.isPunctuator, heads.noMark ":" (by decide), ok,
    ended.isPunctuator, semicolon]

theorem reads_expression {k : Nat} (heads : Heads s.token)
    (value : ∀ t : State, t.token = s.token → t.depth = s.depth → Reads (derive k (.assignment false)) c t []) :
    Reads (derive (k + 1) .bareItem) c s [] := by
  obtain ⟨word, words, named, shows⟩ := heads.shows
  have noDeclaration : declarationOf (derive k) word c s = .ok false s := by
    rcases named with rfl | rfl
    · simp [declarationOf, mayBeginTypeDeclaration]
    · simp [declarationOf, mayBeginTypeDeclaration]
  have isPlain : statementOf (derive k) word = plainStatement (derive k) := by
    rcases named with rfl | rfl
    · rfl
    · rfl
  have inner : Reads (plainStatement (derive k)) c (s.openNode .statement s.token.start) [] :=
    reads_plainStatement heads (value _ rfl rfl)
  obtain ⟨a, t, ok, ended, same⟩ := inner.within
  refine ⟨a, t, ?_, ended, same⟩
  show bareItem (derive k) c s = .ok a t
  simp [bareItem, statement, bind_apply, shows.isWord, shows.text, noDeclaration, shows.isPunctuator, isPlain, ok]

/-! ### Exports -/

/-- An export of a name behind as many exports. -/
def exports (n : Nat) : List String :=
  List.replicate n "export" ++ ["x"]

/-- What an export declares counts no level. -/
theorem export_of_item {other : String} (shows : s.token.Shows .identifier "export" (other :: words))
    (next : Stands .identifier other) (plain : other ∉ ["default", "type", "as", "import"])
    (inner : ∀ t : State, t.token = s.token.following → t.depth = s.depth → Reads (rules .bareItem) c t []) :
    Reads (bareItem rules) c s [] := by
  have behind := next.shows shows.behind
  simp only [List.mem_cons, List.not_mem_nil, or_false, not_or] at plain
  obtain ⟨inside, entered, token, depth⟩ : ∃ t,
      (s.openNode (.exportDeclaration false) s.token.start).bumped = t ∧ t.token = s.token.following ∧
        t.depth = s.depth :=
    ⟨_, rfl, State.token_bumped _, State.depth_bumped _⟩
  obtain ⟨a, t, ok, ended, same⟩ : Reads (withExporting true (rules .bareItem)) c inside [] :=
    (inner { inside with exporting := true } token depth).withExporting
  have noSpecial : typedExport rules c inside = .ok false inside := by
    cases ts : c.dialect.typescript with
    | true =>
        simp [typedExport, bind_apply, ts, eat_apply, eatWord, token, behind.isPunctuator, behind.isKeyword, plain]
    | false => simp [typedExport, bind_apply, ts]
  have exported : exportDeclaration rules c s = .ok () (t.closeNode ⟨s.nodes.size⟩) := by
    rw [exportDeclaration, bind_ok currentStart_apply, bind_ok (openNode_apply _ _), bind_ok bump_apply, entered]
    simp [bind_apply, eatWord, eat_apply, token, behind.isPunctuator, behind.isKeyword, plain, noSpecial, ok,
      closeNode]
  refine ⟨(), t.closeNode ⟨s.nodes.size⟩, ?_, ended, same.trans depth⟩
  simp [bareItem, declarationOf, bind_apply, shows.isWord, shows.text, exported]

theorem reads_exports (n m : Nat) (here : s.token.Before (exports n)) (bounded : 0 < c.bound)
    (shallow : s.depth + 1 < maxDepth) : Reads (derive (n + m + 5) .bareItem) c s [] := by
  induction n generalizing s with
  | zero =>
      have heads := heads_constructions 0 here
      refine reads_expression heads fun t token depth => ?_
      refine reads_assignment (token ▸ heads) (by omega) (reads_binary 0 m ?_ bounded (by dsimp only; omega))
      exact token ▸ here
  | succ n ih =>
      have shows : s.token.Shows .identifier "export" (exports n) := stands_export.shows here
      have inner (t : State) (token : t.token = s.token.following) (depth : t.depth = s.depth) :
          Reads (derive (n + m + 5) .bareItem) c t [] :=
        ih (token ▸ shows.behind) (depth ▸ shallow)
      rw [Nat.add_right_comm n 1 m]
      cases n with
      | zero => exact export_of_item shows stands_x (by decide) inner
      | succ n => exact export_of_item shows stands_export (by decide) inner

/-! ### Chains -/

/-- Constructs that contain each other on one level. -/
inductive Chain
  | constructions
  | powers
  | exports

/-- The chain of a length. -/
def Chain.spelling : Chain → Nat → List String
  | constructions, n => Grammar.constructions n
  | powers, n => Grammar.powers n
  | exports, n => Grammar.exports n

/-- A chain is an item of three levels, whatever its length. -/
theorem reads_chain (chain : Chain) (n m : Nat) (here : s.token.Before (chain.spelling n)) (bounded : 1 < c.bound)
    (shallow : s.depth + 2 < maxDepth) : Reads (derive (n + m + 6) .item) c s [] := by
  have positive : 0 < c.bound := Nat.lt_of_succ_lt bounded
  apply Reads.nested (by omega)
  show Reads (derive (n + m + 5) .bareItem) c { s with depth := s.depth + 1 } []
  cases chain with
  | constructions =>
      have heads := heads_constructions n here
      refine reads_expression heads fun t token depth => reads_assignment (token ▸ heads) ?_ ?_
      · rw [depth]
        exact Nat.lt_of_succ_lt shallow
      · exact reads_binary n m (token ▸ here) positive (depth ▸ shallow)
  | powers =>
      have heads := heads_powers n here
      refine reads_expression heads fun t token depth => reads_assignment (token ▸ heads) ?_ ?_
      · rw [depth]
        exact Nat.lt_of_succ_lt shallow
      · exact reads_power n m (by decide) (token ▸ here) bounded (depth ▸ shallow)
  | exports => exact reads_exports n m here positive shallow

theorem kind_of_chain (chain : Chain) (n : Nat) (here : t.Before (chain.spelling n)) : t.kind = .identifier := by
  have named (heads : Heads t) : t.kind = .identifier := by
    obtain ⟨word, words, -, shows⟩ := heads.shows
    exact shows.kind
  cases chain with
  | constructions => exact named (heads_constructions n here)
  | powers => exact named (heads_powers n here)
  | exports =>
      cases n with
      | zero => exact named (heads_constructions 0 here)
      | succ n =>
          have shows : t.Shows .identifier "export" (exports n) := stands_export.shows here
          exact shows.kind

theorem length_le_byteLength_spaced (words : List String) : words.length ≤ byteLength (spaced words) := by
  induction words with
  | nil => exact Nat.zero_le _
  | cons word words ih =>
      have parts : byteLength (spaced (word :: words)) =
          (' ' : Char).utf8Size + byteLength word.toList + byteLength (spaced words) := by
        simp only [spaced, List.flatMap_cons, byteLength_append, byteLength]
      have positive := (' ' : Char).utf8Size_pos
      rw [parts, List.length_cons]
      omega

theorem Chain.lt_length_spelling (chain : Chain) (n : Nat) : n < (chain.spelling n).length := by
  cases chain with
  | constructions => simp [spelling, Grammar.constructions]
  | powers =>
      simp [spelling, Grammar.powers]
      omega
  | exports => simp [spelling, Grammar.exports]

/-! ### Failures -/

/-- The parser fails for a cause. -/
def FailsFor (cause : Cause) (p : Parser α) (c : Context) (s : State) : Prop :=
  ∃ f t, p c s = .error f t ∧ f.cause = cause

variable {cause : Cause}

theorem FailsFor.bind {p : Parser α} (first : FailsFor cause p c s) (next : α → Parser β) :
    FailsFor cause (p >>= next) c s := by
  obtain ⟨f, t, failed, because⟩ := first
  exact ⟨f, t, by rw [bind_apply, failed], because⟩

theorem fails_nested {p : Parser α} (deep : maxDepth ≤ s.depth) : FailsFor .nestedTooDeeply (nested p) c s := by
  have exceeds : maxDepth < s.depth + 1 := Nat.lt_succ_of_le deep
  refine ⟨⟨s.token.start, .nestedTooDeeply⟩, { s with depth := s.depth + 1 }, ?_, rfl⟩
  simp only [nested, bind_apply, modify_apply, get_apply, exceeds, if_true, gt_iff_lt]
  rfl

theorem FailsFor.nested {p : Parser α} (inner : FailsFor .nestedTooDeeply p c { s with depth := s.depth + 1 }) :
    FailsFor .nestedTooDeeply (nested p) c s := by
  by_cases deep : maxDepth ≤ s.depth
  · exact fails_nested deep
  · have fits : ¬ maxDepth < s.depth + 1 := by omega
    obtain ⟨f, t, failed, because⟩ := inner
    refine ⟨f, t, ?_, because⟩
    simp only [Grammar.nested, bind_apply, modify_apply, get_apply, gt_iff_lt, fits, if_false, failed]

/-- The calls that read a construction nest as deep as the chain is long. -/
theorem fails_construction (n k : Nat) (here : s.token.Before (constructions (n + k))) :
    FailsFor .exhausted (derive n .construction) c s := by
  induction n generalizing s with
  | zero => exact ⟨_, _, rfl, rfl⟩
  | succ n ih =>
      rw [Nat.add_right_comm n 1 k] at here
      have shows : s.token.Shows .identifier "new" (constructions (n + k)) := stands_new.shows here
      obtain ⟨f, t, failed, because⟩ := ih (s.token_bumped ▸ shows.behind)
      refine ⟨f, t, ?_, because⟩
      show construction (derive n) c s = .error f t
      simp [construction, bind_apply, eat_apply, shows.isPunctuator, shows.isKeyword, failed]

/-! ### Prefix operators -/

/-- A name behind as many negations. -/
def negations (n : Nat) : List String :=
  List.replicate n "!" ++ ["x"]

/-- Each negation counts a level. -/
theorem fails_unary (n m : Nat) (here : s.token.Before (negations n)) (deep : maxDepth ≤ s.depth + n) :
    FailsFor .nestedTooDeeply (derive (n + m + 1) .unary) c s := by
  induction n generalizing s with
  | zero => exact fails_nested deep
  | succ n ih =>
      have shows : s.token.Shows .punctuator "!" (negations n) := stands_not.shows here
      obtain ⟨f, t, failed, because⟩ : FailsFor .nestedTooDeeply (derive (n + m + 1) .unary) c
          { s.bumped with depth := s.depth + 1 } :=
        ih (s.token_bumped ▸ shows.behind) (by dsimp only; omega)
      rw [← s.bumped_depth] at failed
      rw [Nat.add_right_comm n 1 m]
      apply FailsFor.nested
      refine ⟨f, t, ?_, because⟩
      simp [unary, isAtUnaryOperator, bind_apply, shows.kind, shows.text, failed]

theorem fails_assignment (n m : Nat) (here : s.token.Before (negations (n + 1)))
    (deep : maxDepth ≤ s.depth + n + 2) : FailsFor .nestedTooDeeply (derive (n + m + 4) (.assignment false)) c s := by
  have shows : s.token.Shows .punctuator "!" (negations n) := stands_not.shows here
  apply FailsFor.nested
  have operand : FailsFor .nestedTooDeeply (derive (n + 1 + m + 1) .unary) c { s with depth := s.depth + 1 } :=
    fails_unary (n + 1) m here (by dsimp only; omega)
  rw [Nat.add_right_comm n 1 m] at operand
  have tested : FailsFor .nestedTooDeeply (conditional (derive (n + m + 3)) false) c { s with depth := s.depth + 1 } :=
    FailsFor.bind (operand.bind _) _
  obtain ⟨f, t, failed, because⟩ := tested
  refine ⟨f, t, ?_, because⟩
  simp [assignment, arrowAhead, bind_apply, shows.isKeyword, shows.isWord, shows.isPunctuator, failed]

theorem fails_item (n m : Nat) (here : s.token.Before (negations (n + 1))) (deep : maxDepth ≤ s.depth + n + 3) :
    FailsFor .nestedTooDeeply (derive (n + m + 6) .item) c s := by
  have shows : s.token.Shows .punctuator "!" (negations n) := stands_not.shows here
  apply FailsFor.nested
  obtain ⟨inside, entered, token, depth⟩ : ∃ t,
      ({ s with depth := s.depth + 1 } : State).openNode .statement s.token.start = t ∧ t.token = s.token ∧
        t.depth = s.depth + 1 :=
    ⟨_, rfl, rfl, rfl⟩
  obtain ⟨f, t, failed, because⟩ : FailsFor .nestedTooDeeply (derive (n + m + 4) (.assignment false)) c inside :=
    fails_assignment n m (token ▸ here) (by omega)
  refine ⟨f, t, ?_, because⟩
  show bareItem (derive (n + m + 4)) c _ = _
  simp [bareItem, statement, within, openNode_apply, entered, plainStatement, anyExpression, expression, bind_apply,
    token, shows.isWord, shows.namesBinding, shows.isPunctuator, failed]

/-! ### Whole sources -/

/-- Items up to the end of the text. -/
def itemsToEnd (rules : Rules) : Parser Unit :=
  repeatWhile do
    if ← isAtEnd then return false
    rules .item
    return true

/-- A module without directives is what its items are. -/
theorem moduleBody_eq {source : List Char} (plain : (Token.read ⟨0, source⟩).kind ≠ .string)
    (bounded : 0 < c.bound) :
    ∃ s close, moduleBody source c (initialState source) = (itemsToEnd (derive (callBound c)) >>= close) c s ∧
      (∀ t, ∃ u, close () c t = .ok () u) ∧ s.token = Token.read ⟨0, source⟩ ∧ s.depth = 0 := by
  have noDirective : ∀ s : State, s.token = Token.read ⟨0, source⟩ → directives c s = .ok none s := by
    intro s token
    exact loop_done bounded (by simp [bind_apply, token, plain])
  obtain ⟨s, opened, token, depth⟩ : ∃ s,
      (initialState source).openNode (.module { hashbangEnd := hashbangEnd? source, directivesEnd := none }) 0 = s ∧
        s.token = Token.read ⟨0, source⟩ ∧ s.depth = 0 :=
    ⟨_, rfl, rfl, rfl⟩
  let root : NodeId := ⟨(initialState source).nodes.size⟩
  let close : Unit → Parser Unit := fun _ => do
    closeNodeAt root (byteLength source)
    setKind root (.module { hashbangEnd := hashbangEnd? source, directivesEnd := none })
  refine ⟨s, close, ?_, fun t => ⟨_, rfl⟩, token, depth⟩
  rw [moduleBody, bind_ok read_apply, bind_ok (openNode_apply _ _), opened, bind_ok (noDirective s token)]
  rfl

/-- A source of one item is read if the item ends with the text. -/
theorem moduleBody_ok {source : List Char} (here : (Token.read ⟨0, source⟩).kind ∉ [.string, .endOfText])
    (bounded : 1 < c.bound)
    (item : ∀ s : State, s.token = Token.read ⟨0, source⟩ → s.depth = 0 →
      Reads (derive (callBound c) .item) c s []) :
    ∃ t, moduleBody source c (initialState source) = .ok () t := by
  simp only [List.mem_cons, List.not_mem_nil, or_false, not_or] at here
  obtain ⟨s, close, same, closes, token, depth⟩ := moduleBody_eq (c := c) here.1 (Nat.lt_of_succ_lt bounded)
  obtain ⟨a, t, ok, ended, -⟩ := item s token depth
  have all : itemsToEnd (derive (callBound c)) c s = .ok () t :=
    loop_twice () (t := t) (u := t) bounded (by simp [bind_apply, token, here.2, ok])
      (by simp [bind_apply, ended.kind_eq])
  obtain ⟨u, closed⟩ := closes t
  exact ⟨u, by rw [same, bind_ok all, closed]⟩

theorem moduleBody_fails {source : List Char} (here : (Token.read ⟨0, source⟩).kind ∉ [.string, .endOfText])
    (bounded : 0 < c.bound)
    (item : ∀ s : State, s.token = Token.read ⟨0, source⟩ → s.depth = 0 →
      FailsFor cause (derive (callBound c) .item) c s) :
    FailsFor cause (moduleBody source) c (initialState source) := by
  simp only [List.mem_cons, List.not_mem_nil, or_false, not_or] at here
  obtain ⟨s, close, same, -, token, depth⟩ := moduleBody_eq (c := c) here.1 bounded
  obtain ⟨f, t, failed, because⟩ := item s token depth
  obtain ⟨n, bound⟩ := Nat.exists_eq_succ_of_ne_zero (Nat.ne_of_gt bounded)
  refine ⟨f, t, ?_, because⟩
  rw [same]
  simp [itemsToEnd, repeatWhile, loop, bind_apply, bound, loopUpTo, token, here.2, failed]

end Grammar

open Grammar

/-- Chains of constructions, of powers and of exports are read at any length, in every dialect. -/
theorem parse_chain (chain : Chain) (n : Nat) (dialect : Dialect) :
    ∃ t, parse (String.ofList (spaced (chain.spelling n))) dialect = .ok t := by
  let source := spaced (chain.spelling n)
  let c : Context := { dialect, bound := byteLength source + 2 }
  have enough : n < byteLength source :=
    (chain.lt_length_spelling n).trans_le (length_le_byteLength_spaced (chain.spelling n))
  have bounded : 1 < c.bound := Nat.lt_add_left _ Nat.one_lt_two
  obtain ⟨m, calls⟩ : ∃ m, callBound c = n + m + 6 :=
    ⟨callBound c - n - 6, by simp only [callBound, c]; omega⟩
  have first := kind_of_chain chain n (t := Token.read ⟨0, source⟩) ⟨0, rfl⟩
  have item (s : State) (token : s.token = Token.read ⟨0, source⟩) (depth : s.depth = 0) :
      Reads (derive (callBound c) .item) c s [] := by
    rw [calls]
    exact reads_chain chain n m ⟨0, token⟩ bounded (by rw [depth]; decide)
  obtain ⟨s, ok⟩ := moduleBody_ok (by simp [first]) bounded item
  refine ⟨Tree.ofState source dialect s, ?_⟩
  rw [parse, parseChars, String.toList_ofList, ok]

/-- Chains of negations are refused from the length on at which they exceed the levels that there are. -/
theorem parse_negations {n : Nat} (deep : maxDepth ≤ n + 2) (dialect : Dialect) :
    ∃ e, parse (String.ofList (spaced (negations n))) dialect = .error e ∧ e.cause = .nestedTooDeeply := by
  obtain ⟨n, rfl⟩ : ∃ k, n = k + 1 := ⟨n - 1, by have := (by decide : 3 ≤ maxDepth); omega⟩
  let source := spaced (negations (n + 1))
  let c : Context := { dialect, bound := byteLength source + 2 }
  have enough : n < byteLength source := by
    have length := length_le_byteLength_spaced (negations (n + 1))
    simp only [negations, List.length_append, List.length_replicate, List.length_singleton] at length
    exact Nat.lt_of_lt_of_le (by omega) length
  have bounded : 0 < c.bound := Nat.succ_pos _
  obtain ⟨m, calls⟩ : ∃ m, callBound c = n + m + 6 :=
    ⟨callBound c - n - 6, by simp only [callBound, c]; omega⟩
  have first : (Token.read ⟨0, source⟩).Shows .punctuator "!" (negations n) := stands_not.shows ⟨0, rfl⟩
  have item (s : State) (token : s.token = Token.read ⟨0, source⟩) (_ : s.depth = 0) :
      FailsFor .nestedTooDeeply (derive (callBound c) .item) c s := by
    rw [calls]
    exact fails_item n m ⟨0, token⟩ (by omega)
  obtain ⟨f, s, failed, because⟩ := moduleBody_fails (by simp [first.kind]) bounded item
  refine ⟨ParseError.ofFailure source f, ?_, because⟩
  rw [parse, parseChars, String.toList_ofList, failed]

end BindingRepair.Script
