/-
# What may stand behind an expression

An expression ends before a token that does not go on with it. Then each level of operators finds
nothing to do, and the value of a declaration is what its operand is.
-/

import BindingRepair.Proofs.Grammar.Evaluation

namespace BindingRepair.Script.Grammar

variable {c : Context} {s t : State} {rules : Rules} {shape : Shape}

/-- The punctuators that go on with an operand or begin the branches of a condition. -/
def continuingMarks : List String :=
  [".", "?.", "[", "(", "?"]

/-- The token goes on with the expression before it. -/
def continuesExpression (typescript : Bool) (t : Token) : Bool :=
  t.isTemplateStart || continuingMarks.any t.isPunctuator ||
    (t.kind == .punctuator && isAssignmentOperator t.text) ||
    ((t.kind == .punctuator || t.isWord) && (binaryPrecedence? t.text).isSome) ||
    (!t.newlineBefore && (t.isPunctuator "++" || t.isPunctuator "--")) ||
    (!t.newlineBefore && typescript &&
      (t.isPunctuator "!" || t.isKeyword "as" || t.isKeyword "satisfies"))

/-- The expression before the token ends there. -/
structure EndsExpression (typescript : Bool) (t : Token) : Prop where
  template : t.isTemplateStart = false
  mark : ∀ mark ∈ continuingMarks, t.isPunctuator mark = false
  assignment : (t.kind == .punctuator && isAssignmentOperator t.text) = false
  operator : (t.kind == .punctuator || t.isWord) = true → binaryPrecedence? t.text = none
  update : t.newlineBefore = false → (t.isPunctuator "++" || t.isPunctuator "--") = false
  certain : t.newlineBefore = false → typescript = true → t.isPunctuator "!" = false
  cast : t.newlineBefore = false → typescript = true →
    t.isKeyword "as" = false ∧ t.isKeyword "satisfies" = false

theorem endsExpression_iff {typescript : Bool} {t : Token} :
    continuesExpression typescript t = false ↔ EndsExpression typescript t := by
  simp only [continuesExpression, Bool.or_eq_false_iff, List.any_eq_false, Bool.not_eq_true]
  constructor
  · rintro ⟨⟨⟨⟨⟨template, mark⟩, assignment⟩, operator⟩, update⟩, typed⟩
    refine ⟨template, mark, assignment, fun here => ?_, fun same => ?_, fun same ts => ?_,
      fun same ts => ?_⟩
    · rw [here, Bool.true_and] at operator
      simpa using operator
    · simpa [same] using update
    · simp only [same, ts, Bool.not_false, Bool.true_and, Bool.or_eq_false_iff] at typed
      exact typed.1.1
    · simp only [same, ts, Bool.not_false, Bool.true_and, Bool.or_eq_false_iff] at typed
      exact ⟨typed.1.2, typed.2⟩
  · rintro ⟨template, mark, assignment, operator, update, certain, cast⟩
    refine ⟨⟨⟨⟨⟨template, mark⟩, assignment⟩, ?_⟩, ?_⟩, ?_⟩
    · cases here : t.kind == .punctuator || t.isWord with
      | true => simp [operator here]
      | false => rfl
    · cases same : t.newlineBefore with
      | true => rfl
      | false => simpa using update same
    · cases same : t.newlineBefore with
      | true => rfl
      | false =>
          cases typescript with
          | true => simp [certain same rfl, cast same rfl]
          | false => rfl

section Ends

variable (ends : EndsExpression c.dialect.typescript s.token)
include ends

theorem access_of_ends : access rules c s = .ok false s := by
  have noAngle : s.token.isPunctuator "<" = false := by
    refine Bool.eq_false_iff.mpr fun angle => ?_
    simp only [Token.isPunctuator, Bool.and_eq_true, beq_iff_eq] at angle
    have := ends.operator (by simp [angle.1])
    rw [angle.2] at this
    cases this
  have certain : (c.dialect.typescript && s.token.isPunctuator "!" && !s.token.newlineBefore) = false := by
    cases same : s.token.newlineBefore with
    | true => simp
    | false =>
        cases ts : c.dialect.typescript with
        | true => simp [ends.certain same ts]
        | false => simp
  have no (mark : String) (listed : mark ∈ continuingMarks) := ends.mark mark listed
  unfold access eatIndex typeArguments
  simp only [bind_apply, eat_apply, ite_apply, isAt_apply, isTypedAt_apply, currentToken_apply, pure_apply,
    no "." (by decide), no "?." (by decide), no "[" (by decide), no "(" (by decide), ends.template,
    noAngle, certain, Bool.and_false, Bool.false_eq_true, if_false]

theorem binaryStep_of_ends (precedence : Nat) (noIn : Bool) :
    binaryStep rules precedence noIn c s = .ok false s := by
  unfold binaryStep
  cases here : s.token.kind == .punctuator || s.token.isWord with
  | false =>
      simp only [bind_apply, currentToken_apply, ite_apply, here, pure_apply, Bool.false_eq_true,
        if_false]
  | true =>
      have none := ends.operator here
      cases word : s.token.isWord with
      | false => simp [bind_apply, word, none]
      | true =>
          have noCast : c.dialect.typescript = true → s.token.text = "as" ∨ s.token.text = "satisfies" →
              s.token.newlineBefore = true := by
            intro ts cast
            refine Bool.not_eq_false _ ▸ fun same => ?_
            have no := ends.cast same ts
            simp only [Token.isKeyword, word, Bool.true_and, beq_eq_false_iff_ne] at no
            exact cast.elim no.1 no.2
          simp [bind_apply, word, none]
          exact fun ts cast same => absurd (noCast ts cast) (by simp [same])

/-- Behind an operand whose end the token is there is no access. -/
theorem callee_of_primary (noNew : t.token.isKeyword "new" = false) (bounded : 0 < c.bound)
    (first : primary rules c t = .ok shape s) : callee rules c t = .ok shape s := by
  simp only [callee, bind_apply, isAtWord_apply, noNew, Bool.false_eq_true, if_false, first]
  exact loop_done bounded (by simp [bind_apply, access_of_ends ends])

theorem updated_of_callee (first : rules .callee c t = .ok shape s) :
    updated rules c t = .ok shape s := by
  have noUpdate : ((s.token.isPunctuator "++" || s.token.isPunctuator "--") &&
      !s.token.newlineBefore) = false := by
    cases same : s.token.newlineBefore with
    | true => simp
    | false => simp [ends.update same]
  simp [updated, bind_apply, first]
  simp at noUpdate
  exact fun marks same => absurd (noUpdate marks) (by simp [same])

theorem binary_of_unary (precedence : Nat) (noIn : Bool) (bounded : 0 < c.bound)
    (first : rules .unary c t = .ok shape s) : binary rules precedence noIn c t = .ok shape s := by
  rw [binary, bind_ok first]
  exact loop_done bounded (by simp [bind_apply, binaryStep_of_ends ends])

theorem conditional_of_binary (noIn : Bool) (first : rules (.binary 0 noIn) c t = .ok shape s) :
    conditional rules noIn c t = .ok shape s := by
  simp [conditional, bind_apply, first, eat_apply, ends.mark "?" (by decide)]

end Ends

/-! ### Words as operands -/

/-- The words that an expression does not begin with as with an operand. -/
def operatorWords : List String :=
  ["yield", "async", "await", "typeof", "void", "delete", "new"]

/-- The token is a word with which an operand begins, and no arrow function of one parameter. -/
structure OpensOperand (t : Token) : Prop where
  word : t.isWord = true
  plain : t.text ∉ operatorWords
  noArrow : namesBinding t = true → t.following.isPunctuator "=>" = false

namespace OpensOperand

theorem isPunctuator {t : Token} (opens : OpensOperand t) (mark : String) :
    t.isPunctuator mark = false := by
  have word := opens.word
  simp only [Token.isWord, Bool.and_eq_true, beq_iff_eq] at word
  simp [Token.isPunctuator, word.1]

theorem isKeyword {t : Token} (opens : OpensOperand t) (word : String) (operator : word ∈ operatorWords) :
    t.isKeyword word = false := by
  have different : t.text ≠ word := fun same => opens.plain (same ▸ operator)
  simp [Token.isKeyword, different]

theorem isAtUnaryOperator (opens : OpensOperand s.token) : isAtUnaryOperator c s = .ok false s := by
  have kind : s.token.kind = .identifier := by
    have word := opens.word
    simp only [Token.isWord, Bool.and_eq_true, beq_iff_eq] at word
    exact word.1
  have noOperator : ["typeof", "void", "delete"].contains s.token.text = false := by
    have plain := opens.plain
    simp only [operatorWords, List.mem_cons, not_or] at plain
    simp [plain]
  simp only [Grammar.isAtUnaryOperator, bind_apply, currentToken_apply, kind, ite_apply, noOperator,
    Bool.and_false, Bool.false_eq_true, if_false, isAtWord_apply, opens.isKeyword "await" (by decide),
    pure_apply]

theorem arrowAhead (opens : OpensOperand s.token) : arrowAhead c s = .ok none s := by
  have noAsync : (s.token.isWord && s.token.text == "async") = false :=
    opens.isKeyword "async" (by decide)
  have noArrow : namesBinding s.token = true →
      (s.token.following.isPunctuator "=>" && !s.token.following.newlineBefore) = false := by
    intro names
    simp [opens.noArrow names]
  simp only [Grammar.arrowAhead, bind_apply, read_apply, currentToken_apply, noAsync, ite_apply,
    Bool.false_eq_true, if_false, opens.isPunctuator, Bool.and_false, pure_apply]
  cases names : s.token.isWord && namesBinding s.token with
  | false => simp
  | true =>
      rw [Bool.and_eq_true] at names
      simp [noArrow names.2]

end OpensOperand

/-- The token begins an operand, and neither a unary operation nor an arrow function. -/
structure BeginsOperand (c : Context) (t : Token) : Prop where
  noYield : t.isKeyword "yield" = false
  noAngle : t.isPunctuator "<" = false
  noOperator : ∀ s : State, s.token = t → isAtUnaryOperator c s = .ok false s
  noArrow : ∀ s : State, s.token = t → arrowAhead c s = .ok none s

theorem OpensOperand.begins {t : Token} (opens : OpensOperand t) : BeginsOperand c t where
  noYield := opens.isKeyword "yield" (by decide)
  noAngle := opens.isPunctuator "<"
  noOperator _ here := isAtUnaryOperator (here ▸ opens)
  noArrow _ here := arrowAhead (here ▸ opens)

theorem unary_of_updated (begins : BeginsOperand c t.token) (first : updated rules c t = .ok shape s) :
    unary rules c t = .ok shape s := by
  simp only [unary, bind_apply, begins.noOperator t rfl, isTypedAt_apply, allowsElements_apply,
    begins.noAngle, Bool.false_eq_true, if_false, Bool.and_false, Bool.false_and, ite_apply, pure_apply]
  exact first

theorem assignment_of_conditional (noIn : Bool) (begins : BeginsOperand c t.token)
    (ends : EndsExpression c.dialect.typescript s.token)
    (first : conditional rules noIn c t = .ok shape s) : assignment rules noIn c t = .ok shape s := by
  have noYield : (t.inGenerator && t.token.isKeyword "yield") = false := by
    rw [begins.noYield, Bool.and_false]
  simp only [assignment, bind_apply, get_apply, isAtWord_apply, noYield, begins.noArrow t rfl, first,
    currentToken_apply, ends.assignment, ite_apply, Bool.false_eq_true, if_false, pure_apply]

/-- An operand without operators is read through all levels of the grammar. -/
theorem derive_assignment {n : Nat} (noIn : Bool) (begins : BeginsOperand c t.token)
    (ends : EndsExpression c.dialect.typescript s.token) (bounded : 0 < c.bound)
    (shallow : t.depth + 1 < maxDepth) (same : s.depth = t.depth)
    (first : callee (derive n) c { t with depth := t.depth + 2 } =
      .ok shape { s with depth := t.depth + 2 }) :
    derive (n + 4) (.assignment noIn) c t = .ok shape s := by
  have ends (depth : Nat) : EndsExpression c.dialect.typescript { s with depth : State }.token := ends
  refine nested_ok (Nat.lt_of_succ_lt shallow) ?_ same
  refine assignment_of_conditional noIn begins (ends _) (conditional_of_binary (ends _) noIn ?_)
  refine binary_of_unary (ends _) 0 noIn bounded (nested_ok shallow ?_ rfl)
  exact unary_of_updated begins (updated_of_callee (ends _) first)

/-! ### Null and its call -/

theorem opensOperand_null (null : t.token.isKeyword "null" = true) : OpensOperand t.token := by
  simp only [Token.isKeyword, Bool.and_eq_true, beq_iff_eq] at null
  obtain ⟨word, text⟩ := null
  refine ⟨word, by rw [text]; decide, fun names => ?_⟩
  simp only [Token.isWord, Bool.and_eq_true, Bool.not_eq_true'] at word
  simp [namesBinding, word.2, text, isReservedWord, reservedWords] at names

theorem primary_null (null : t.token.isKeyword "null" = true) :
    primary rules c t = .ok .other t.bumped := by
  simp only [Token.isKeyword, Token.isWord, Bool.and_eq_true, beq_iff_eq, Bool.not_eq_true'] at null
  obtain ⟨⟨kind, plain⟩, text⟩ := null
  simp [primary, primaryWord, bind_apply, kind, text, Token.isWord, plain]

theorem derive_null {n : Nat} (noIn : Bool) (null : t.token.isKeyword "null" = true)
    (ends : EndsExpression c.dialect.typescript t.bumped.token) (bounded : 0 < c.bound)
    (shallow : t.depth + 1 < maxDepth) :
    derive (n + 4) (.assignment noIn) c t = .ok .other t.bumped := by
  have opens := opensOperand_null null
  refine derive_assignment noIn opens.begins ends bounded shallow t.depth_bumped ?_
  rw [← t.bumped_depth]
  refine callee_of_primary ?_ (opens.isKeyword "new" (by decide)) bounded (primary_null null)
  rw [t.bumped_depth]
  exact ends

/-- A closing parenthesis goes on with nothing. -/
theorem endsExpression_closing {typescript : Bool} {t : Token} (closing : t.isPunctuator ")" = true) :
    EndsExpression typescript t := by
  simp only [Token.isPunctuator, Bool.and_eq_true, beq_iff_eq] at closing
  obtain ⟨kind, text⟩ := closing
  refine endsExpression_iff.mp ?_
  simp [continuesExpression, continuingMarks, Token.isTemplateStart, Token.isPunctuator, Token.isWord,
    Token.isKeyword, kind, text, isAssignmentOperator, binaryPrecedence?]

theorem arguments_null {n : Nat} (opening : s.token.isPunctuator "(" = true)
    (null : s.bumped.token.isKeyword "null" = true)
    (closing : s.bumped.bumped.token.isPunctuator ")" = true) (bounded : 0 < c.bound)
    (shallow : s.depth + 1 < maxDepth) :
    arguments (derive (n + 4)) c s = .ok () s.bumped.bumped.bumped := by
  have noMark := (opensOperand_null null).isPunctuator
  have noComma : s.bumped.bumped.token.isPunctuator "," = false :=
    isPunctuator_of_ne closing (by decide)
  have value := derive_null (n := n) false null (endsExpression_closing closing) bounded
    (by rw [s.depth_bumped]; exact shallow)
  have opened : expect "(" c s = .ok () s.bumped := by
    simp [expect, bind_apply, eat_apply, opening]
  have closed : expect ")" c s.bumped.bumped = .ok () s.bumped.bumped.bumped := by
    simp only [expect, bind_apply, eat_apply, closing, if_true, pure_apply]
  rw [arguments, bind_ok opened, bind_ok (repeatWhile_done bounded (t := s.bumped.bumped) ?_), closed]
  simp only [bind_apply, isAt_apply, noMark, ite_apply, Bool.false_eq_true, if_false, eatOptional, eat_apply,
    pure_apply, operand, value, noComma]

/-- The token is a name with which an operand begins. -/
structure OpensName (t : Token) : Prop extends OpensOperand t where
  name : isReservedWord t.text = false

theorem primary_name (opens : OpensName t.token) :
    primary rules c t = .ok .other (t.refer t.token).bumped := by
  have word := opens.word
  have name := opens.name
  have plain := opens.plain
  simp only [Token.isWord, Bool.and_eq_true, beq_iff_eq, Bool.not_eq_true'] at word
  have no (reserved : String) (listed : isReservedWord reserved = true) : t.token.text ≠ reserved := by
    rintro rfl
    rw [name] at listed
    cases listed
  have noAsync : t.token.text ≠ "async" := fun same => plain (same ▸ by decide)
  simp [primary, primaryWord, bind_apply, word, Token.isWord, name, noAsync, no "function" (by decide),
    no "class" (by decide), no "this" (by decide), no "null" (by decide), no "true" (by decide),
    no "false" (by decide), no "super" (by decide), no "import" (by decide)]
  rfl

theorem callee_call {n : Nat} (opens : OpensName t.token)
    (opening : t.token.following.isPunctuator "(" = true)
    (null : t.token.following.following.isKeyword "null" = true)
    (closing : t.token.following.following.following.isPunctuator ")" = true)
    (ends : EndsExpression c.dialect.typescript
      t.token.following.following.following.following) (bounded : 1 < c.bound)
    (shallow : t.depth + 1 < maxDepth) :
    callee (derive (n + 4)) c t = .ok .other (t.refer t.token).bumped.bumped.bumped.bumped := by
  have noNew : t.token.isKeyword "new" = false := opens.isKeyword "new" (by decide)
  have no (mark : String) (other : "(" ≠ mark) : t.token.following.isPunctuator mark = false :=
    isPunctuator_of_ne opening other
  have token : (t.refer t.token).token = t.token := rfl
  have depth : (t.refer t.token).depth = t.depth := rfl
  have called : arguments (derive (n + 4)) c (t.refer t.token).bumped =
      .ok () (t.refer t.token).bumped.bumped.bumped.bumped := by
    refine arguments_null ?_ ?_ ?_ (Nat.lt_of_succ_lt bounded) ?_
    all_goals simpa only [State.token_bumped, State.depth_bumped, token, depth]
  simp only [callee, bind_apply, isAtWord_apply, noNew, Bool.false_eq_true, if_false,
    primary_name opens]
  refine loop_twice .other (t := (t.refer t.token).bumped.bumped.bumped.bumped) bounded ?_ ?_
  · simp [access, eatIndex, bind_apply, eat_apply, token, no, opening, called]
  · have none : access (derive (n + 4)) c (t.refer t.token).bumped.bumped.bumped.bumped =
        .ok false (t.refer t.token).bumped.bumped.bumped.bumped :=
      access_of_ends (by simpa only [State.token_bumped, token] using ends)
    simp [bind_apply, none]

/-- The state behind a call with one argument, whose name is the current token. -/
def State.called (s : State) : State :=
  (s.refer s.token).bumped.bumped.bumped.bumped

namespace State

theorem token_called (s : State) :
    s.called.token = s.token.following.following.following.following := by
  simp only [called, token_bumped]
  rfl

theorem previousEnd_called (s : State) :
    s.called.previousEnd = s.token.following.following.following.last := by
  simp only [called, previousEnd_bumped, token_bumped]
  rfl

theorem depth_called (s : State) : s.called.depth = s.depth := by
  simp only [called, depth_bumped]
  rfl

theorem exporting_called (s : State) : s.called.exporting = s.exporting := by
  simp only [called, exporting_bumped]
  rfl

theorem called_depth (s : State) (depth : Nat) :
    ({ s with depth } : State).called = { s.called with depth } := by
  simp only [called, ← bumped_depth]
  rfl

theorem called_exporting (s : State) (exporting : Bool) :
    ({ s with exporting } : State).called = { s.called with exporting } := by
  simp only [called, ← bumped_exporting]
  rfl

end State

theorem derive_call {n : Nat} (noIn : Bool) (opens : OpensName t.token)
    (opening : t.token.following.isPunctuator "(" = true)
    (null : t.token.following.following.isKeyword "null" = true)
    (closing : t.token.following.following.following.isPunctuator ")" = true)
    (ends : EndsExpression c.dialect.typescript
      t.token.following.following.following.following) (bounded : 1 < c.bound)
    (shallow : t.depth + 3 < maxDepth) :
    derive (n + 8) (.assignment noIn) c t = .ok .other t.called := by
  refine derive_assignment noIn opens.begins (t.token_called ▸ ends) (Nat.lt_of_succ_lt bounded)
    (by omega) t.depth_called ?_
  rw [← State.called_depth]
  exact callee_call opens opening null closing ends bounded (by dsimp only; omega)

end BindingRepair.Script.Grammar
