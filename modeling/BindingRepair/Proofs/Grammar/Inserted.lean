/-
# Reading inserted declarations back

The text of declarations that edits insert is read as these declarations, one statement each, if
semicolons end them or what stands behind them begins a statement of its own.
-/

import BindingRepair.Proofs.Grammar.Declared

namespace BindingRepair.Script

open Text

/-- A declaration that is inserted into a body: a value and its setter, bound to a call, or a name,
bound to null. -/
inductive BodyDeclaration
  | state (value setter callee : String)
  | null (name : String)
deriving DecidableEq, Repr

/-- The string is a name of a binding. -/
structure IsName (name : String) : Prop where
  identifier : isIdentifier name = true
  unreserved : isReservedWord name = false

namespace BodyDeclaration

open Grammar

/-- The names are ones of bindings, and none reads as an operator or the head of a loop. -/
def Valid : BodyDeclaration → Prop
  | .state value setter callee =>
    IsName value ∧ IsName setter ∧ IsName callee ∧ callee ∉ operatorWords
  | .null name => IsName name ∧ name ≠ "of"

/-- How deep the constructs in the declaration nest. -/
def levels : BodyDeclaration → Nat
  | .state _ _ _ => 5
  | .null _ => 3

/-- The words of the declaration, with a gap before it. -/
def phrase (lead : List Char) : BodyDeclaration → Phrase
  | .state value setter callee =>
    [(lead, .name "const"), ([' '], .mark '['), ([], .name value), ([], .mark ','),
      ([' '], .name setter), ([], .mark ']'), ([' '], .equals), ([' '], .name callee), ([], .mark '('),
      ([], .name "null"), ([], .mark ')')]
  | .null name => [(lead, .name "let"), ([' '], .name name), ([' '], .equals), ([' '], .name "null")]

/-- The words of the declaration with its semicolon, if it gets one. -/
def sentence (lead : List Char) (semicolons : Bool) (d : BodyDeclaration) : Phrase :=
  d.phrase lead ++ if semicolons then [([], .mark ';')] else []

/-- The words of declarations one after another. -/
def sentences (lead : List Char) (semicolons : Bool) (ds : List BodyDeclaration) : Phrase :=
  ds.flatMap fun d => d.sentence lead semicolons

/-- The nodes of the declaration, numbered from `first` on, inside a node `parent`. -/
def nodes (first : Nat) (parent : Option NodeId) (exported : Bool) :
    BodyDeclaration → List (NodeKind × Option NodeId)
  | .state value setter callee =>
    [(.varDeclaration .const, parent), (.declarator {}, some ⟨first⟩),
      (boundNode value .const exported, some ⟨first + 1⟩),
      (boundNode setter .const exported, some ⟨first + 1⟩),
      (referringNode callee, some ⟨first + 1⟩)]
  | .null name =>
    [(.varDeclaration .let, parent), (.declarator { name := some ⟨first + 2⟩ }, some ⟨first⟩),
      (boundNode name .let exported, some ⟨first + 1⟩)]

/-- The nodes of declarations one after another. -/
def allNodes (parent : Option NodeId) (exported : Bool) :
    (first : Nat) → List BodyDeclaration → List (NodeKind × Option NodeId)
  | _, [] => []
  | first, d :: ds =>
    let own := d.nodes first parent exported
    own ++ allNodes parent exported (first + own.length) ds

end BodyDeclaration

namespace Phrase

theorem text_append (first second : Phrase) : (first ++ second).text = first.text ++ second.text :=
  List.flatMap_append

theorem fits_append {rest : List Char} {first second : Phrase} :
    (first ++ second).Fits rest ↔ first.Fits (second.text ++ rest) ∧ second.Fits rest := by
  induction first with
  | nil => exact ⟨fun fits => ⟨trivial, fits⟩, And.right⟩
  | cons piece first ih =>
      obtain ⟨gap, word⟩ := piece
      simp only [List.cons_append, Fits, ih, text_append, List.append_assoc, and_assoc]

theorem reads_append {stop place : Cursor} {first second : Phrase} :
    (first ++ second).Reads stop place ↔ ∃ mid, first.Reads mid place ∧ second.Reads stop mid := by
  induction first generalizing place with
  | nil => exact ⟨fun reads => ⟨place, rfl, reads⟩, fun ⟨mid, same, reads⟩ => by rwa [show place = mid from same]⟩
  | cons piece first ih =>
      obtain ⟨gap, word⟩ := piece
      simp only [List.cons_append, Reads, ih]
      constructor
      · rintro ⟨kind, text, plain, newline, mid, one, two⟩
        exact ⟨mid, ⟨kind, text, plain, newline, one⟩, two⟩
      · rintro ⟨mid, ⟨kind, text, plain, newline, one⟩, two⟩
        exact ⟨kind, text, plain, newline, mid, one, two⟩

end Phrase

namespace Grammar

variable {c : Context} {s t u : State} {place mid stop : Cursor} {lead : List Char}

/-! ### Written words -/

/-- What stands behind the end of a statement that needs no semicolon does not go on with a name. -/
theorem endsIdentifier_of_endsStatement {offset : Nat} {rest : List Char}
    (ends : endsStatement (Token.read ⟨offset, rest⟩) = true) : endsIdentifier rest = true := by
  cases rest with
  | nil => rfl
  | cons c cs =>
      refine Bool.not_eq_false _ ▸ fun goesOn => ?_
      have part : isIdentifierPart c = true ∨ c = '\\' := by
        rw [endsIdentifier, Bool.and_eq_false_iff, Bool.not_eq_false', bne_eq_false_iff_eq] at goesOn
        exact goesOn
      have opens : opensToken c = true ∧ c ≠ '#' := by
        rcases part with part | rfl
        · refine ⟨opensToken_of_isIdentifierPart part, ?_⟩
          rintro rfl
          revert part
          decide
        · decide
      have here := Token.read_append (List.forall_mem_nil _) opens.1 opens.2 offset cs
      have kind := kind_readAt_of_isIdentifierPart part false offset cs
      rw [List.nil_append] at here
      simp only [Text.byteLength, List.any_nil, Nat.add_zero] at here
      have newline : (Token.readAt false ⟨offset, c :: cs⟩).newlineBefore = false := by
        rw [Token.readAt_newline]
      rw [here, endsStatement, newline] at ends
      simp only [Token.isPunctuator, Bool.or_false, Bool.or_eq_true, Bool.and_eq_true, beq_iff_eq] at ends
      simp only [List.mem_cons, List.not_mem_nil, or_false] at kind
      rcases kind with kind | kind | kind
      all_goals simp [kind] at ends

theorem fits_phrase {declaration : BodyDeclaration} {rest : List Char} (valid : declaration.Valid)
    (blank : ∀ c ∈ lead, Unicode.isBlank c = true) (ends : endsIdentifier rest = true) :
    (declaration.phrase lead).Fits rest := by
  have space : ∀ c ∈ [' '], Unicode.isBlank c = true := List.forall_mem_singleton.mpr rfl
  have tight : ∀ c ∈ ([] : List Char), Unicode.isBlank c = true := nofun
  cases declaration with
  | null name =>
      exact ⟨blank, ⟨by decide, rfl⟩, space, ⟨valid.1.identifier, rfl⟩, space, rfl, space,
        ⟨by decide, ends⟩, trivial⟩
  | state value setter callee =>
      obtain ⟨isValue, isSetter, isCallee, -⟩ := valid
      exact ⟨blank, ⟨by decide, rfl⟩, space, List.mem_of_elem_eq_true rfl, tight, ⟨isValue.identifier, rfl⟩,
        tight, List.mem_of_elem_eq_true rfl, space, ⟨isSetter.identifier, rfl⟩, tight,
        List.mem_of_elem_eq_true rfl, space, rfl, space, ⟨isCallee.identifier, rfl⟩, tight,
        List.mem_of_elem_eq_true rfl, tight, ⟨by decide, rfl⟩, tight, List.mem_of_elem_eq_true rfl, trivial⟩

/-- The text of declarations is made of their words. -/
theorem fits_sentences {semicolons : Bool} {declarations : List BodyDeclaration} {rest : List Char}
    (valid : ∀ d ∈ declarations, d.Valid) (blank : ∀ c ∈ lead, Unicode.isBlank c = true)
    (nonempty : lead ≠ []) (ends : semicolons = true ∨ endsIdentifier rest = true) :
    (BodyDeclaration.sentences lead semicolons declarations).Fits rest := by
  induction declarations with
  | nil => trivial
  | cons d ds ih =>
      have later := ih fun e listed => valid e (List.mem_cons_of_mem d listed)
      rw [BodyDeclaration.sentences, List.flatMap_cons, Phrase.fits_append, BodyDeclaration.sentence]
      refine ⟨?_, later⟩
      cases semicolons with
      | true =>
          refine Phrase.fits_append.mpr ⟨fits_phrase (valid d List.mem_cons_self) blank rfl, ?_⟩
          exact ⟨nofun, List.mem_of_elem_eq_true rfl, trivial⟩
      | false =>
          rw [if_neg Bool.false_ne_true, List.append_nil]
          refine fits_phrase (valid d List.mem_cons_self) blank ?_
          -- Behind the name stands the gap before the next declaration, or what stands behind them all.
          cases ds with
          | nil => exact ends.resolve_left Bool.false_ne_true
          | cons e es =>
              obtain ⟨gap, gaps, rfl⟩ := List.exists_cons_of_ne_nil nonempty
              have blankHere := blank gap List.mem_cons_self
              cases e with
              | null name => exact endsIdentifier_of_isBlank blankHere _
              | state value setter callee => exact endsIdentifier_of_isBlank blankHere _

/-! ### One declaration -/

theorem isKeyword_of_spelled {t : Token} {word : String} (kind : t.kind = .identifier)
    (text : t.text = String.ofList word.toList) (plain : t.escaped = false) :
    t.isKeyword word = true := by
  simp [Token.isKeyword, Token.isWord, kind, text, plain]

theorem isWord_of_isKeyword {t : Token} {word : String} (keyword : t.isKeyword word = true) :
    t.isWord = true :=
  (Bool.and_eq_true_iff.mp keyword).1

theorem text_of_isKeyword {t : Token} {word : String} (keyword : t.isKeyword word = true) :
    t.text = word :=
  beq_iff_eq.mp (Bool.and_eq_true_iff.mp keyword).2

theorem isPunctuator_of_spelled {t : Token} (mark : Char) (kind : t.kind = .punctuator)
    (text : t.text = String.ofList [mark]) : t.isPunctuator (String.ofList [mark]) = true := by
  simp [Token.isPunctuator, kind, text]

theorem namesBinding_of_spelled {t : Token} {name : String} (isName : IsName name)
    (kind : t.kind = .identifier) (text : t.text = String.ofList name.toList) :
    namesBinding t = true := by
  simp [namesBinding, kind, text, isName.unreserved]

theorem identifierName_of_spelled {t : Token} {name : String}
    (text : t.text = String.ofList name.toList) (plain : t.escaped = false) :
    identifierName t = name := by
  simp [identifierName, plain, text]

/-- The words that bind a name to null are read as such. -/
theorem declaresNull_of_reads {name : String} (isName : IsName name) (noLoop : name ≠ "of")
    (reads : ((BodyDeclaration.null name).phrase lead).Reads stop place) :
    DeclaresNull (Token.read place) ∧ identifierName ((Token.read place).behind 1) = name ∧
      ((Token.read place).behind 3).last = stop := by
  obtain ⟨kind₀, text₀, plain₀, -, kind₁, text₁, plain₁, -, kind₂, text₂, -, -, kind₃, text₃, plain₃, -, last⟩ :=
    reads
  refine ⟨⟨isKeyword_of_spelled kind₀ text₀ plain₀, namesBinding_of_spelled isName kind₁ text₁, ?_,
    isPunctuator_of_spelled '=' kind₂ text₂, isKeyword_of_spelled kind₃ text₃ plain₃⟩,
    identifierName_of_spelled text₁ plain₁, last⟩
  have text : ((Token.read place).behind 1).text = name := text₁.trans (by simp [Word.text])
  rw [text]
  rintro listed
  simp only [List.mem_cons, List.not_mem_nil, or_false] at listed
  rcases listed with rfl | rfl | rfl
  · exact absurd isName.unreserved (by decide)
  · exact absurd isName.unreserved (by decide)
  · exact noLoop rfl

theorem declaresState_of_reads {value setter callee : String} (isValue : IsName value)
    (isSetter : IsName setter) (isCallee : IsName callee) (operand : callee ∉ operatorWords)
    (reads : ((BodyDeclaration.state value setter callee).phrase lead).Reads stop place) :
    DeclaresState (Token.read place) ∧ identifierName ((Token.read place).behind 2) = value ∧
      identifierName ((Token.read place).behind 4) = setter ∧
      identifierName ((Token.read place).behind 7) = callee ∧
      ((Token.read place).behind 10).last = stop := by
  obtain ⟨kind₀, text₀, plain₀, -, kind₁, text₁, -, -, kind₂, text₂, plain₂, -, kind₃, text₃, -, -,
    kind₄, text₄, plain₄, -, kind₅, text₅, -, -, kind₆, text₆, -, -, kind₇, text₇, plain₇, -,
    kind₈, text₈, -, -, kind₉, text₉, plain₉, -, kind₁₀, text₁₀, -, -, last⟩ := reads
  have text : ((Token.read place).behind 7).text = callee := text₇.trans (by simp [Word.text])
  have opening : ((Token.read place).behind 8).isPunctuator "(" = true :=
    isPunctuator_of_spelled '(' kind₈ text₈
  have pair : PairsNames ((Token.read place).behind 1) :=
    ⟨isPunctuator_of_spelled '[' kind₁ text₁, namesBinding_of_spelled isValue kind₂ text₂,
      isPunctuator_of_spelled ',' kind₃ text₃, namesBinding_of_spelled isSetter kind₄ text₄,
      isPunctuator_of_spelled ']' kind₅ text₅⟩
  have opens : OpensName ((Token.read place).behind 7) :=
    { word := by
        have kind : ((Token.read place).behind 7).kind = .identifier := kind₇
        have plain : ((Token.read place).behind 7).escaped = false := plain₇
        simp [Token.isWord, kind, plain]
      plain := by rwa [text]
      noArrow := fun _ => isPunctuator_of_ne opening (by decide)
      name := by rw [text]; exact isCallee.unreserved }
  exact ⟨⟨isKeyword_of_spelled kind₀ text₀ plain₀, pair, isPunctuator_of_spelled '=' kind₆ text₆,
    opens, opening, isKeyword_of_spelled kind₉ text₉ plain₉,
    isPunctuator_of_spelled ')' kind₁₀ text₁₀⟩,
    identifierName_of_spelled text₂ plain₂, identifierName_of_spelled text₄ plain₄,
    identifierName_of_spelled text₇ plain₇, last⟩

/-- A statement that is read up to `mid` ends at `stop`: behind a semicolon, or where none is needed. -/
inductive EndsAt (mid : Cursor) : Cursor → Prop
  | semicolon (here : (Token.read mid).isPunctuator ";" = true) : EndsAt mid (Token.read mid).last
  | inserted (none : (Token.read mid).isPunctuator ";" = false)
      (ends : endsStatement (Token.read mid) = true) : EndsAt mid mid

/-- The end of a statement changes only the place and the counters. -/
theorem consumeSemicolon_endsAt (ends : EndsAt mid stop) (here : s.token = Token.read mid)
    (behind : s.previousEnd = mid) :
    ∃ t, consumeSemicolon c s = .ok () t ∧ t.token = Token.read stop ∧ t.previousEnd = stop ∧
      s.SameTree t ∧ t.exporting = s.exporting ∧ t.depth = s.depth := by
  cases ends with
  | semicolon semicolon =>
      refine ⟨_, consumeSemicolon_semicolon (by rw [here]; exact semicolon), ?_, ?_, ?_, ?_, ?_⟩
      · show s.bumped.token = _
        rw [s.token_bumped, here]
        rfl
      · show s.bumped.previousEnd = _
        rw [s.previousEnd_bumped, here]
      · exact ⟨s.nodes_bumped, s.scopes_bumped, s.references_bumped, s.opened_bumped, s.scope_bumped⟩
      · exact s.exporting_bumped
      · exact s.depth_bumped
  | inserted none ends =>
      have inserted := consumeSemicolon_inserted (c := c) (s := s) (by rw [here]; exact none)
        (by rw [here]; exact ends)
      exact ⟨_, inserted, here, behind, ⟨rfl, rfl, rfl, rfl, rfl⟩, rfl, rfl⟩

/-- What stands behind a declaration does not go on with it. -/
structure Closes (typescript : Bool) (mid stop : Cursor) : Prop where
  expression : EndsExpression typescript (Token.read mid)
  noComma : (Token.read mid).isPunctuator "," = false
  ends : EndsAt mid stop

/-- A declaration that is read as an item: what was added inside it is all that it adds. -/
theorem derive_item_of_inDeclaration {n : Nat} {added : List (NodeKind × Option NodeId)} (shallow : s.depth < maxDepth)
    (word : s.token.isWord = true) (inside : { s with depth := s.depth + 1 : State }.InDeclaration u added)
    (level : u.depth = s.depth + 1)
    (declares : declarationOf (derive n) s.token.text c { s with depth := s.depth + 1 } =
      .ok true (u.closeNode ⟨s.nodes.size⟩)) :
    ∃ t, derive (n + 2) .item c s = .ok () t ∧ s.Adds t added ∧ t.token = u.token ∧ t.previousEnd = u.previousEnd := by
  have adds := inside.adds
  exact ⟨_, derive_item shallow word declares level, ⟨adds.outline, adds.opened, adds.scope, rfl, adds.exporting⟩,
    rfl, rfl⟩

/-- A variable statement that is read as a statement of a body ends where it was meant to. -/
theorem derive_item_of_declared {n : Nat} {declared : State} {added : List (NodeKind × Option NodeId)}
    (shallow : s.depth < maxDepth) (word : s.token.isWord = true)
    (inside : { s with depth := s.depth + 1 : State }.InDeclaration declared added)
    (level : declared.depth = s.depth + 1)
    (here : declared.token = Token.read mid) (behind : declared.previousEnd = mid)
    (ends : EndsAt mid stop)
    (declares : ∀ u, consumeSemicolon c declared = .ok () u →
      declarationOf (derive n) s.token.text c { s with depth := s.depth + 1 } =
        .ok true (u.closeNode ⟨s.nodes.size⟩)) :
    ∃ t, derive (n + 2) .item c s = .ok () t ∧ s.Adds t added ∧ t.token = Token.read stop ∧
      t.previousEnd = stop := by
  obtain ⟨u, ended, token, previousEnd, same, exporting, depth⟩ :=
    consumeSemicolon_endsAt (c := c) ends here behind
  obtain ⟨t, read, adds, stopped, stoppedBehind⟩ :=
    derive_item_of_inDeclaration shallow word (inside.sameTree same exporting) (depth.trans level) (declares u ended)
  exact ⟨t, read, adds, stopped.trans token, stoppedBehind.trans previousEnd⟩

/-- A written declaration is read as one statement, the declaration, and ends where it was meant to. -/
theorem derive_declaration {n : Nat} {declaration : BodyDeclaration} (valid : declaration.Valid)
    (reads : (declaration.phrase lead).Reads mid place) (here : s.token = Token.read place)
    (closes : Closes c.dialect.typescript mid stop) (bounded : 2 < c.bound)
    (shallow : s.depth + declaration.levels ≤ maxDepth) :
    ∃ t, derive (n + 10) .item c s = .ok () t ∧
      s.Adds t (declaration.nodes s.nodes.size s.opened.head? s.exporting) ∧
      t.token = Token.read stop ∧ t.previousEnd = stop := by
  cases declaration with
  | null name =>
      obtain ⟨declares, isBound, last⟩ := declaresNull_of_reads valid.1 valid.2 reads
      rw [← here] at declares isBound last
      have next : s.token.behind 4 = Token.read mid := by rw [Token.behind, Token.following, last]
      have shallow : s.depth + 3 ≤ maxDepth := shallow
      have inside := ({ s with depth := s.depth + 1 } : State).inDeclaration_null
      dsimp only at inside
      rw [isBound] at inside
      have token := (State.token_declaredNull { s with depth := s.depth + 1 }).trans next
      have behind := (State.previousEnd_declaredNull { s with depth := s.depth + 1 }).trans last
      refine derive_item_of_declared (by omega) (isWord_of_isKeyword declares.keyword) inside
        (State.depth_declaredNull _) token behind closes.ends fun u ended => ?_
      refine declarationOf_let (s := { s with depth := s.depth + 1 }) (text_of_isKeyword declares.keyword)
        (kind_of_namesBinding declares.name) declares.plain ?_
      exact varStatement_null (n := n + 4) declares (by omega) (by dsimp only; omega)
        (by rw [next]; exact closes.expression) (by rw [next]; exact closes.noComma) ended
  | state value setter callee =>
      obtain ⟨isValue, isSetter, isCallee, operand⟩ := valid
      obtain ⟨declares, isFirst, isSecond, isCalled, last⟩ :=
        declaresState_of_reads isValue isSetter isCallee operand reads
      rw [← here] at declares isFirst isSecond isCalled last
      have next : s.token.behind 11 = Token.read mid := by rw [Token.behind, Token.following, last]
      have shallow : s.depth + 5 ≤ maxDepth := shallow
      have inside := ({ s with depth := s.depth + 1 } : State).inDeclaration_state
      dsimp only at inside
      rw [isFirst, isSecond, isCalled] at inside
      have token := (State.token_declaredState { s with depth := s.depth + 1 }).trans next
      have behind := (State.previousEnd_declaredState { s with depth := s.depth + 1 }).trans last
      refine derive_item_of_declared (by omega) (isWord_of_isKeyword declares.keyword) inside
        (State.depth_declaredState _) token behind closes.ends fun u ended => ?_
      have noEnum : (s.token.behind 1).isKeyword "enum" = false := by
        have opening := declares.pair.opening
        simp only [Token.isPunctuator, Bool.and_eq_true, beq_iff_eq] at opening
        simp [Token.isKeyword, Token.isWord, opening.1]
      refine declarationOf_const (s := { s with depth := s.depth + 1 })
        (text_of_isKeyword declares.keyword) noEnum ?_
      exact varStatement_state declares bounded (by dsimp only; omega) (by rw [next]; exact closes.expression)
        (by rw [next]; exact closes.noComma) ended

/-! ### Declarations one after another -/

/-- A number of statements or declarations. -/
def items (rules : Rules) : Nat → Parser Unit
  | 0 => pure ()
  | k + 1 => do
    rules .item
    items rules k

/-- The token begins a statement of its own behind an expression that no semicolon ends. -/
def standsAlone (typescript : Bool) (t : Token) : Bool :=
  endsStatement t && !continuesExpression typescript t && !t.isPunctuator "," && !t.isPunctuator ";"

theorem endsStatement_of_standsAlone {typescript : Bool} {t : Token}
    (alone : standsAlone typescript t = true) : endsStatement t = true := by
  simp only [standsAlone, Bool.and_eq_true] at alone
  exact alone.1.1.1

theorem closes_of_standsAlone {typescript : Bool} (alone : standsAlone typescript (Token.read stop) = true) :
    Closes typescript stop stop := by
  simp only [standsAlone, Bool.and_eq_true, Bool.not_eq_true'] at alone
  obtain ⟨⟨⟨ends, expression⟩, noComma⟩, noSemicolon⟩ := alone
  exact ⟨endsExpression_iff.mp expression, noComma, .inserted noSemicolon ends⟩

theorem closes_of_semicolon {typescript : Bool} (here : (Token.read mid).isPunctuator ";" = true) :
    Closes typescript mid (Token.read mid).last := by
  refine ⟨endsExpression_iff.mp ?_, isPunctuator_of_ne here (by decide), .semicolon here⟩
  simp only [Token.isPunctuator, Bool.and_eq_true, beq_iff_eq] at here
  obtain ⟨kind, text⟩ := here
  simp [continuesExpression, continuingMarks, Token.isTemplateStart, Token.isPunctuator, Token.isWord,
    Token.isKeyword, kind, text, isAssignmentOperator, binaryPrecedence?]

/-- The keyword of a declaration on a new line goes on with nothing. -/
theorem standsAlone_of_reads {typescript : Bool} {declaration : BodyDeclaration} {phrase : Phrase}
    (newline : lead.any isLineTerminator = true)
    (reads : (declaration.phrase lead ++ phrase).Reads stop place) :
    standsAlone typescript (Token.read place) = true := by
  have keyword : ∃ word ∈ ["const", "let"], (Token.read place).kind = .identifier ∧
      (Token.read place).text = word ∧ (Token.read place).newlineBefore = true := by
    cases declaration with
    | null name =>
        obtain ⟨kind, text, -, same, -⟩ := reads
        exact ⟨"let", by decide, kind, text, same.trans newline⟩
    | state value setter callee =>
        obtain ⟨kind, text, -, same, -⟩ := reads
        exact ⟨"const", by decide, kind, text, same.trans newline⟩
  obtain ⟨word, listed, kind, text, same⟩ := keyword
  simp only [List.mem_cons, List.not_mem_nil, or_false] at listed
  rcases listed with rfl | rfl
  all_goals
    simp [standsAlone, endsStatement, continuesExpression, continuingMarks, Token.isTemplateStart,
      Token.isPunctuator, kind, text, same, binaryPrecedence?]

/-- A declaration in a row of them is closed by its semicolon, by the next one or by what stands behind
the row. -/
theorem closes_of_reads {typescript semicolons : Bool} {declaration : BodyDeclaration}
    {declarations : List BodyDeclaration} (newline : lead.any isLineTerminator = true)
    (next : semicolons = true ∨ standsAlone typescript (Token.read stop) = true)
    (reads : (BodyDeclaration.sentences lead semicolons (declaration :: declarations)).Reads stop place) :
    ∃ mid behind, (declaration.phrase lead).Reads mid place ∧ Closes typescript mid behind ∧
      (BodyDeclaration.sentences lead semicolons declarations).Reads stop behind := by
  rw [BodyDeclaration.sentences, List.flatMap_cons, Phrase.reads_append] at reads
  obtain ⟨behind, own, others⟩ := reads
  rw [BodyDeclaration.sentence, Phrase.reads_append] at own
  obtain ⟨mid, core, ending⟩ := own
  refine ⟨mid, behind, core, ?_, others⟩
  cases semicolons with
  | true =>
      obtain ⟨kind, text, -, -, last⟩ := ending
      rw [← last]
      exact closes_of_semicolon (isPunctuator_of_spelled ';' kind text)
  | false =>
      have same : mid = behind := ending
      rw [same]
      cases declarations with
      | nil =>
          have last : behind = stop := others
          rw [last]
          exact closes_of_standsAlone (next.resolve_left Bool.false_ne_true)
      | cons second later =>
          rw [List.flatMap_cons, BodyDeclaration.sentence, List.append_assoc] at others
          exact closes_of_standsAlone (standsAlone_of_reads newline others)

/-- Written declarations are read as these declarations, one statement each, if semicolons end them or
the token behind them begins a statement of its own. -/
theorem derive_declarations {n : Nat} {semicolons : Bool} {declarations : List BodyDeclaration}
    (valid : ∀ d ∈ declarations, d.Valid) (newline : lead.any isLineTerminator = true)
    (next : semicolons = true ∨ standsAlone c.dialect.typescript (Token.read stop) = true)
    (bounded : 2 < c.bound) (shallow : ∀ d ∈ declarations, s.depth + d.levels ≤ maxDepth)
    (reads : (BodyDeclaration.sentences lead semicolons declarations).Reads stop place)
    (here : s.token = Token.read place) (behind : s.previousEnd = place) :
    ∃ t, items (derive (n + 10)) declarations.length c s = .ok () t ∧
      s.Adds t (BodyDeclaration.allNodes s.opened.head? s.exporting s.nodes.size declarations) ∧
      t.token = Token.read stop ∧ t.previousEnd = stop := by
  induction declarations generalizing s place with
  | nil =>
      have same : place = stop := reads
      exact ⟨s, rfl, ⟨(List.append_nil _).symm, rfl, rfl, rfl, rfl⟩, same ▸ here, same ▸ behind⟩
  | cons d ds ih =>
      obtain ⟨mid, first, core, closes, others⟩ := closes_of_reads newline next reads
      obtain ⟨t, read, adds, token, previousEnd⟩ :=
        derive_declaration (n := n) (valid d List.mem_cons_self) core here closes bounded
          (shallow d List.mem_cons_self)
      obtain ⟨u, later, more, last⟩ := ih (fun e listed => valid e (List.mem_cons_of_mem d listed))
        (fun e listed => by rw [adds.depth]; exact shallow e (List.mem_cons_of_mem d listed))
        others token previousEnd
      refine ⟨u, ?_, ?_, last⟩
      · rw [List.length_cons, items, bind_ok read]
        exact later
      · rw [adds.opened, adds.exporting, adds.size] at more
        exact adds.trans more

end Grammar

end BindingRepair.Script
