/-
# Reading inserted declarations

The two forms of declarations that edits insert, read as statements. Each is one variable declaration,
and what stands behind it decides whether it ends where it was meant to.
-/

import BindingRepair.Proofs.Grammar.Following
import BindingRepair.Proofs.Lexer.Words

namespace BindingRepair.Script.Grammar

variable {c : Context} {s t u : State} {rules : Rules} {shape : Shape}

/-! ### Outlines -/

/-- The kind and the parent of each node. -/
def State.outline (s : State) : List (NodeKind × Option NodeId) :=
  s.nodes.toList.map fun n => (n.kind, n.parent)

namespace State

theorem length_outline (s : State) : s.outline.length = s.nodes.size := by
  simp [outline]

@[simp]
theorem outline_bumped (s : State) : s.bumped.outline = s.outline := by
  rw [outline, outline, nodes_bumped]

theorem outline_addNode (s : State) (kind : NodeKind) (span : Text.Span) (scope : ScopeId) :
    (s.addNode kind span scope).outline = s.outline ++ [(kind, s.opened.head?)] := by
  refine List.ext_getElem? fun i => ?_
  rw [List.getElem?_append, length_outline]
  simp only [outline, addNode, List.getElem?_map, Array.getElem?_toList, getElem?_appendNode]
  by_cases last : i = s.nodes.size
  · subst last
    simp
  · rw [if_neg last]
    by_cases inside : i < s.nodes.size
    · rw [if_pos inside]
      split
      · cases s.nodes[i]? <;> rfl
      · rfl
    · have outside : s.nodes[i]? = none := Array.getElem?_eq_none (Nat.le_of_not_lt inside)
      have beyond : ∃ k, i - s.nodes.size = k + 1 := ⟨i - s.nodes.size - 1, by omega⟩
      obtain ⟨k, far⟩ := beyond
      rw [if_neg inside, outside, far]
      split <;> rfl

theorem outline_openNode (s : State) (kind : NodeKind) (start : Nat) :
    (s.openNode kind start).outline = s.outline ++ [(kind, s.opened.head?)] :=
  s.outline_addNode kind _ _

theorem outline_refer (s : State) (t : Token) : (s.refer t).outline =
    s.outline ++ [(.identifier { name := identifierName t, role := .reference }, s.opened.head?)] :=
  s.outline_addNode _ _ _

theorem outline_bind (s : State) (t : Token) (site : BindingSite) : (s.bind t site).outline =
    s.outline ++ [(.identifier {
      name := identifierName t
      role := .binding { site with exported := (site.exported || s.exporting) } }, s.opened.head?)] :=
  s.outline_addNode _ _ _

theorem outline_closeNode (s : State) (id : NodeId) : (s.closeNode id).outline = s.outline := by
  refine List.ext_getElem? fun i => ?_
  simp only [outline, closeNode, closeNodeAt, List.getElem?_map, Array.getElem?_toList, Array.getElem?_modify]
  split
  · cases s.nodes[i]? <;> rfl
  · rfl

theorem outline_setKind (s : State) (id : NodeId) (kind : NodeKind) :
    (s.setKind id kind).outline = s.outline.modify id.index fun n => (kind, n.2) := by
  refine List.ext_getElem? fun i => ?_
  simp only [outline, setKind, List.getElem?_map, Array.getElem?_toList, Array.getElem?_modify,
    List.getElem?_modify]
  split
  · cases s.nodes[i]? <;> rfl
  · cases s.nodes[i]? <;> rfl

end State

/-! ### Variable statements -/

theorem openNode_apply (kind : NodeKind) (start : Nat) :
    openNode kind start c s = .ok ⟨s.nodes.size⟩ (s.openNode kind start) :=
  rfl

/-- A declarator: its name or pattern, and behind the sign of equality its value. -/
theorem declarator_ok {kind : BindingKind} {noIn : Bool} {name : Option NodeId}
    (named : declaredName rules kind c (s.openNode (.declarator {}) s.token.start) = .ok name t)
    (equals : t.token.isPunctuator "=" = true)
    (value : rules (.assignment noIn) c { t.bumped with exporting := false } =
      .ok shape { u with exporting := false })
    (same : u.exporting = t.exporting) :
    declarator rules kind noIn c s = .ok () ((u.setKind ⟨s.nodes.size⟩
      (.declarator { name, function := shape.function? })).closeNode ⟨s.nodes.size⟩) := by
  have no (mark : String) (other : "=" ≠ mark) : t.token.isPunctuator mark = false :=
    isPunctuator_of_ne equals other
  have untyped : declaredType rules c t = .ok () t := by
    cases ts : c.dialect.typescript with
    | true =>
        simp [declaredType, bind_apply, ts, eatOptional, eat_apply, no "!" (by decide), no ":" (by decide)]
    | false => simp [declaredType, bind_apply, ts]
  have initial : initialFunction rules noIn c t = .ok shape.function? u := by
    have unexported := withExporting_ok (s := t.bumped) false value (same.trans t.exporting_bumped.symm)
    simp [initialFunction, bind_apply, eat_apply, equals, unexported]
  rw [declarator, bind_ok currentStart_apply, bind_ok (openNode_apply _ _), bind_ok named, bind_ok untyped,
    bind_ok initial]
  rfl

/-- A statement that declares one variable. -/
theorem varStatement_ok (kind : VarKind) (binding : BindingKind)
    (kinds : varKinds s.token.text = (kind, binding))
    (declared : declarator rules binding false c
      (s.openNode (.varDeclaration kind) s.token.start).bumped = .ok () t)
    (noComma : t.token.isPunctuator "," = false) (bounded : 0 < c.bound)
    (ended : consumeSemicolon c t = .ok () u) :
    varStatement rules c s = .ok () (u.closeNode ⟨s.nodes.size⟩) := by
  have round : repeatWhile (do declarator rules binding false; eat ",") c
      (s.openNode (.varDeclaration kind) s.token.start).bumped = .ok () t :=
    repeatWhile_done bounded (by simp [bind_apply, declared, eat_apply, noComma])
  have declaration : varDeclaration rules false c s = .ok ⟨s.nodes.size⟩ t := by
    simp only [varDeclaration, bind_apply, currentToken_apply, kinds, openNode_apply, bump_apply, round,
      pure_apply]
  rw [varStatement, bind_ok declaration, bind_ok ended]
  rfl

/-! ### Declarations as statements -/

/-- The token, by its word, begins a variable statement. -/
theorem derive_item {n : Nat} (shallow : s.depth < maxDepth) (word : s.token.isWord = true)
    (declares : declarationOf (derive n) s.token.text c { s with depth := s.depth + 1 } = .ok true t)
    (same : t.depth = s.depth + 1) :
    derive (n + 2) .item c s = .ok () { t with depth := s.depth } := by
  refine nested_ok shallow ?_ rfl
  have bare : bareItem (derive n) c { s with depth := s.depth + 1 } = .ok () t := by
    simp only [bareItem, bind_apply, currentToken_apply, word, if_true, declares, pure_apply]
  exact bare.trans (by rw [← same])

theorem declarationOf_let (word : s.token.text = "let")
    (name : s.token.following.kind = .identifier)
    (plain : s.token.following.text ∉ ["in", "instanceof", "of"])
    (statement : varStatement rules c s = .ok () t) :
    declarationOf rules s.token.text c s = .ok true t := by
  have declares : letDeclares c s = .ok true s := by
    simp only [letDeclares, bind_apply, peek_apply, name, pure_apply]
    simpa using plain
  rw [word]
  simp [declarationOf, bind_apply, declares, statement]

theorem declarationOf_const (word : s.token.text = "const")
    (noEnum : s.token.following.isKeyword "enum" = false)
    (statement : varStatement rules c s = .ok () t) :
    declarationOf rules s.token.text c s = .ok true t := by
  rw [word]
  simp [declarationOf, bind_apply, noEnum, statement]

/-! ### Behind the parts of a declaration -/

/-- The state inside a declaration of a kind, behind its keyword. -/
def State.insideDeclaration (s : State) (kind : VarKind) : State :=
  (s.openNode (.varDeclaration kind) s.token.start).bumped

/-- The state behind a name that is declared as a binding of a kind. -/
def State.boundHere (s : State) (kind : BindingKind) : State :=
  (s.bind s.token { kind }).bumped

/-- The state inside a declarator. -/
def State.insideDeclarator (s : State) : State :=
  s.openNode (.declarator {}) s.token.start

/-- The state behind a declarator that was opened as the node `id`. -/
def State.behindDeclarator (s : State) (id : NodeId) (name : Option NodeId) : State :=
  (s.setKind id (.declarator { name })).closeNode id

namespace State

theorem token_insideDeclaration (s : State) (kind : VarKind) :
    (s.insideDeclaration kind).token = s.token.following :=
  token_bumped _

theorem size_insideDeclaration (s : State) (kind : VarKind) :
    (s.insideDeclaration kind).nodes.size = s.nodes.size + 1 := by
  simp [insideDeclaration, openNode, addNode]

theorem depth_insideDeclaration (s : State) (kind : VarKind) :
    (s.insideDeclaration kind).depth = s.depth :=
  depth_bumped _

theorem size_insideDeclarator (s : State) : s.insideDeclarator.nodes.size = s.nodes.size + 1 := by
  simp [insideDeclarator, openNode, addNode]

theorem token_boundHere (s : State) (kind : BindingKind) : (s.boundHere kind).token = s.token.following :=
  token_bumped _

theorem depth_boundHere (s : State) (kind : BindingKind) : (s.boundHere kind).depth = s.depth :=
  depth_bumped _

theorem boundHere_depth (s : State) (kind : BindingKind) (depth : Nat) :
    ({ s with depth } : State).boundHere kind = { s.boundHere kind with depth } := by
  rw [boundHere, boundHere, ← bumped_depth]
  rfl

end State

/-! ### A name bound to null -/

/-- A single name is declared by its declarator. -/
theorem declaredName_ok {kind : BindingKind} (names : namesBinding s.token = true) :
    declaredName rules kind c s.insideDeclarator =
      .ok (some ⟨s.nodes.size + 1⟩) (s.insideDeclarator.boundHere kind) := by
  have here : namesBinding s.insideDeclarator.token = true := names
  simp only [declaredName, bind_apply, isAtBindingName_apply, here, if_true, map_apply, bindName_apply,
    s.size_insideDeclarator]
  rfl

/-- From the token on a declaration binds a name to null. -/
structure DeclaresNull (t : Token) : Prop where
  keyword : t.isKeyword "let" = true
  name : namesBinding (t.behind 1) = true
  plain : (t.behind 1).text ∉ ["in", "instanceof", "of"]
  equals : (t.behind 2).isPunctuator "=" = true
  null : (t.behind 3).isKeyword "null" = true

/-- The state behind the declarator of a name bound to null, at whose keyword the state is. -/
def State.declaredNull (s : State) : State :=
  ((s.insideDeclaration .let).insideDeclarator.boundHere .let).bumped.bumped.behindDeclarator
    ⟨s.nodes.size + 1⟩ (some ⟨s.nodes.size + 2⟩)

theorem State.token_declaredNull (s : State) : s.declaredNull.token = s.token.behind 4 := by
  have named : ((s.insideDeclaration .let).insideDeclarator.boundHere .let).token = s.token.behind 2 := by
    rw [token_boundHere]
    exact congrArg Token.following (s.token_insideDeclaration .let)
  have behind : ((s.insideDeclaration .let).insideDeclarator.boundHere .let).bumped.bumped.token =
      s.token.behind 4 := by
    rw [token_bumped, token_bumped, named]
    rfl
  exact behind

theorem State.previousEnd_declaredNull (s : State) : s.declaredNull.previousEnd = (s.token.behind 3).last := by
  have null : ((s.insideDeclaration .let).insideDeclarator.boundHere .let).bumped.token = s.token.behind 3 := by
    rw [token_bumped, token_boundHere]
    exact congrArg (·.following.following) (s.token_insideDeclaration .let)
  show ((s.insideDeclaration .let).insideDeclarator.boundHere .let).bumped.bumped.previousEnd = _
  rw [previousEnd_bumped, null]

theorem State.depth_declaredNull (s : State) : s.declaredNull.depth = s.depth := by
  show ((s.insideDeclaration .let).insideDeclarator.boundHere .let).bumped.bumped.depth = _
  rw [depth_bumped, depth_bumped, depth_boundHere]
  exact s.depth_insideDeclaration .let

/-- A name bound to null is read as one declarator, unless what stands behind goes on with it. -/
theorem varStatement_null {n : Nat} (declares : DeclaresNull s.token) (bounded : 0 < c.bound)
    (shallow : s.depth + 1 < maxDepth)
    (next : EndsExpression c.dialect.typescript (s.token.behind 4))
    (noComma : (s.token.behind 4).isPunctuator "," = false)
    (ended : consumeSemicolon c s.declaredNull = .ok () u) :
    varStatement (derive (n + 4)) c s = .ok () (u.closeNode ⟨s.nodes.size⟩) := by
  obtain ⟨keyword, name, -, equals, null⟩ := declares
  have inside : (s.insideDeclaration .let).token = s.token.behind 1 := s.token_insideDeclaration .let
  have bound : declaredName (derive (n + 4)) .let c (s.insideDeclaration .let).insideDeclarator =
      .ok (some ⟨(s.insideDeclaration .let).nodes.size + 1⟩)
        ((s.insideDeclaration .let).insideDeclarator.boundHere .let) :=
    declaredName_ok (by rw [inside]; exact name)
  have named : ((s.insideDeclaration .let).insideDeclarator.boundHere .let).token = s.token.behind 2 := by
    rw [State.token_boundHere]
    exact congrArg Token.following inside
  have value : derive (n + 4) (.assignment false) c
      { ((s.insideDeclaration .let).insideDeclarator.boundHere .let).bumped with exporting := false } =
      .ok .other
        { ((s.insideDeclaration .let).insideDeclarator.boundHere .let).bumped.bumped with exporting := false } := by
    refine (derive_null (n := n) false ?_ ?_ bounded ?_).trans (by rw [State.bumped_exporting])
    · show ((s.insideDeclaration .let).insideDeclarator.boundHere .let).bumped.token.isKeyword "null" = true
      rw [State.token_bumped, named]
      exact null
    · rw [State.bumped_exporting]
      show EndsExpression c.dialect.typescript
        ((s.insideDeclaration .let).insideDeclarator.boundHere .let).bumped.bumped.token
      rw [State.token_bumped, State.token_bumped, named]
      exact next
    · show ((s.insideDeclaration .let).insideDeclarator.boundHere .let).bumped.depth + 1 < maxDepth
      rw [State.depth_bumped, State.depth_boundHere]
      show (s.insideDeclaration .let).depth + 1 < maxDepth
      rwa [State.depth_insideDeclaration]
  have same : ((s.insideDeclaration .let).insideDeclarator.boundHere .let).bumped.bumped.exporting =
      ((s.insideDeclaration .let).insideDeclarator.boundHere .let).exporting := by
    rw [State.exporting_bumped, State.exporting_bumped]
  have declared : declarator (derive (n + 4)) .let false c (s.insideDeclaration .let) =
      .ok () s.declaredNull := by
    rw [declarator_ok bound (by rw [named]; exact equals) value same, s.size_insideDeclaration]
    rfl
  refine varStatement_ok .let .let ?_ declared ?_ bounded ended
  · simp only [Token.isKeyword, Bool.and_eq_true, beq_iff_eq] at keyword
    rw [keyword.2]
    rfl
  · rw [s.token_declaredNull]
    exact noComma

/-! ### A pair of names bound to a call -/

/-- No name is a mark. -/
theorem isPunctuator_of_namesBinding {t : Token} (names : namesBinding t = true) (mark : String) :
    t.isPunctuator mark = false := by
  simp only [namesBinding, Bool.and_eq_true, beq_iff_eq] at names
  simp [Token.isPunctuator, names.1]

theorem derive_target_name {n : Nat} {kind : BindingKind} (names : namesBinding s.token = true)
    (shallow : s.depth < maxDepth) :
    derive (n + 1) (.target kind) c s = .ok () (s.boundHere kind) := by
  refine nested_ok shallow ?_ (s.depth_boundHere kind)
  rw [← State.boundHere_depth]
  simp only [bindingTarget, bind_apply, isAtBindingName_apply, names, if_true, bindName_apply, pure_apply]
  rfl

/-- The state behind a pattern of two names in brackets. -/
def State.boundPair (s : State) (kind : BindingKind) : State :=
  ((s.bumped.boundHere kind).bumped.boundHere kind).bumped

theorem expect_ok {mark : String} (here : s.token.isPunctuator mark = true) :
    expect mark c s = .ok () s.bumped := by
  simp only [expect, bind_apply, eat_apply, here, if_true, pure_apply]

/-- From the token on a pattern holds two names in brackets. -/
structure PairsNames (t : Token) : Prop where
  opening : t.isPunctuator "[" = true
  first : namesBinding (t.behind 1) = true
  comma : (t.behind 2).isPunctuator "," = true
  second : namesBinding (t.behind 3) = true
  closing : (t.behind 4).isPunctuator "]" = true

theorem arrayPattern_pair {n : Nat} {kind : BindingKind} (pair : PairsNames s.token)
    (bounded : 2 < c.bound) (shallow : s.depth < maxDepth) :
    arrayPattern (derive (n + 1)) kind c s = .ok () (s.boundPair kind) := by
  obtain ⟨opening, first, comma, second, closing⟩ := pair
  have atFirst : s.bumped.token = s.token.behind 1 := s.token_bumped
  have atComma : (s.bumped.boundHere kind).token = s.token.behind 2 := by
    rw [State.token_boundHere, atFirst]
    rfl
  have atSecond : (s.bumped.boundHere kind).bumped.token = s.token.behind 3 := by
    rw [State.token_bumped, atComma]
    rfl
  have atClosing : ((s.bumped.boundHere kind).bumped.boundHere kind).token = s.token.behind 4 := by
    rw [State.token_boundHere, atSecond]
    rfl
  have one : derive (n + 1) (.target kind) c s.bumped = .ok () (s.bumped.boundHere kind) := by
    refine derive_target_name (by rw [atFirst]; exact first) ?_
    rwa [State.depth_bumped]
  have two : derive (n + 1) (.target kind) c (s.bumped.boundHere kind).bumped =
      .ok () ((s.bumped.boundHere kind).bumped.boundHere kind) := by
    refine derive_target_name (by rw [atSecond]; exact second) ?_
    rwa [State.depth_bumped, State.depth_boundHere, State.depth_bumped]
  have noComma (mark : String) (other : "," ≠ mark) := isPunctuator_of_ne comma other
  have noClosing (mark : String) (other : "]" ≠ mark) := isPunctuator_of_ne closing other
  have closed : expect "]" c ((s.bumped.boundHere kind).bumped.boundHere kind) =
      .ok () (s.boundPair kind) :=
    expect_ok (by rw [atClosing]; exact closing)
  have separated : expect "," c (s.bumped.boundHere kind) = .ok () (s.bumped.boundHere kind).bumped :=
    expect_ok (by rw [atComma]; exact comma)
  rw [arrayPattern, bind_ok (expect_ok opening)]
  rw [bind_ok (repeatWhile_thrice bounded (t := (s.bumped.boundHere kind).bumped)
    (u := (s.bumped.boundHere kind).bumped.boundHere kind) ?_ ?_ ?_), closed]
  · simp only [bind_apply, isAt_apply, atFirst, isPunctuator_of_namesBinding first, Bool.false_eq_true,
      if_false, eat_apply, one, defaultValue, atComma, noComma "=" (by decide), noComma "]" (by decide),
      pure_apply, ite_apply, separated]
  · simp only [bind_apply, isAt_apply, atSecond, isPunctuator_of_namesBinding second, Bool.false_eq_true,
      if_false, eat_apply, two, defaultValue, atClosing, noClosing "=" (by decide), closing, if_true,
      pure_apply, ite_apply]
  · simp only [bind_apply, isAt_apply, atClosing, closing, if_true, pure_apply, ite_apply]

namespace State

theorem token_boundPair (s : State) (kind : BindingKind) : (s.boundPair kind).token = s.token.behind 5 := by
  simp only [boundPair, token_bumped, token_boundHere]
  rfl

theorem depth_boundPair (s : State) (kind : BindingKind) : (s.boundPair kind).depth = s.depth := by
  simp only [boundPair, depth_bumped, depth_boundHere]

theorem boundPair_depth (s : State) (kind : BindingKind) (depth : Nat) :
    ({ s with depth } : State).boundPair kind = { s.boundPair kind with depth } := by
  simp only [boundPair, bumped_depth, boundHere_depth]

end State

/-- A pair of names is declared by its declarator, which has no name of its own. -/
theorem declaredName_pair {n : Nat} {kind : BindingKind} (pair : PairsNames s.token)
    (bounded : 2 < c.bound) (shallow : s.depth + 1 < maxDepth) :
    declaredName (derive (n + 2)) kind c s = .ok none (s.boundPair kind) := by
  have noName : namesBinding s.token = false := by
    have opening := pair.opening
    simp only [Token.isPunctuator, Bool.and_eq_true, beq_iff_eq] at opening
    simp [namesBinding, opening.1]
  have target : derive (n + 2) (.target kind) c s = .ok () (s.boundPair kind) := by
    refine nested_ok (Nat.lt_of_succ_lt shallow) ?_ (s.depth_boundPair kind)
    rw [← State.boundPair_depth]
    have deeper : arrayPattern (derive (n + 1)) kind c { s with depth := s.depth + 1 } =
        .ok () (State.boundPair { s with depth := s.depth + 1 } kind) :=
      arrayPattern_pair pair bounded shallow
    simp only [bindingTarget, bind_apply, isAtBindingName_apply, noName, Bool.false_eq_true, if_false,
      isAt_apply, pair.opening, if_true, ite_apply]
    exact deeper
  simp only [declaredName, bind_apply, isAtBindingName_apply, noName, Bool.false_eq_true, if_false, target,
    pure_apply]

/-- From the token on a declaration binds a pair of names to a call. -/
structure DeclaresState (t : Token) : Prop where
  keyword : t.isKeyword "const" = true
  pair : PairsNames (t.behind 1)
  equals : (t.behind 6).isPunctuator "=" = true
  callee : OpensName (t.behind 7)
  opening : (t.behind 8).isPunctuator "(" = true
  null : (t.behind 9).isKeyword "null" = true
  closing : (t.behind 10).isPunctuator ")" = true

/-- The state behind the declarator of a pair of names, at whose keyword the state is. -/
def State.declaredState (s : State) : State :=
  ((s.insideDeclaration .const).insideDeclarator.boundPair .const).bumped.called.behindDeclarator
    ⟨s.nodes.size + 1⟩ none

namespace State

theorem token_boundPair_declared (s : State) :
    ((s.insideDeclaration .const).insideDeclarator.boundPair .const).bumped.token = s.token.behind 7 := by
  rw [token_bumped, token_boundPair]
  show ((s.insideDeclaration .const).token.behind 5).following = _
  rw [s.token_insideDeclaration .const]
  rfl

theorem token_declaredState (s : State) : s.declaredState.token = s.token.behind 11 := by
  show ((s.insideDeclaration .const).insideDeclarator.boundPair .const).bumped.called.token = _
  rw [token_called, token_boundPair_declared]
  rfl

theorem previousEnd_declaredState (s : State) :
    s.declaredState.previousEnd = (s.token.behind 10).last := by
  show ((s.insideDeclaration .const).insideDeclarator.boundPair .const).bumped.called.previousEnd = _
  rw [previousEnd_called, token_boundPair_declared]
  rfl

theorem depth_declaredState (s : State) : s.declaredState.depth = s.depth := by
  show ((s.insideDeclaration .const).insideDeclarator.boundPair .const).bumped.called.depth = _
  rw [depth_called, depth_bumped, depth_boundPair]
  exact s.depth_insideDeclaration .const

end State

/-- A pair of names bound to a call is read as one declarator, unless what stands behind goes on with
it. -/
theorem varStatement_state {n : Nat} (declares : DeclaresState s.token) (bounded : 2 < c.bound)
    (shallow : s.depth + 3 < maxDepth)
    (next : EndsExpression c.dialect.typescript (s.token.behind 11))
    (noComma : (s.token.behind 11).isPunctuator "," = false)
    (ended : consumeSemicolon c s.declaredState = .ok () u) :
    varStatement (derive (n + 8)) c s = .ok () (u.closeNode ⟨s.nodes.size⟩) := by
  obtain ⟨keyword, pair, equals, callee, opening, null, closing⟩ := declares
  have inside : (s.insideDeclaration .const).insideDeclarator.token = s.token.behind 1 :=
    s.token_insideDeclaration .const
  have depth : (s.insideDeclaration .const).insideDeclarator.depth = s.depth :=
    s.depth_insideDeclaration .const
  have bound : declaredName (derive (n + 8)) .const c (s.insideDeclaration .const).insideDeclarator =
      .ok none ((s.insideDeclaration .const).insideDeclarator.boundPair .const) :=
    declaredName_pair (by rw [inside]; exact pair) bounded (by rw [depth]; omega)
  -- From here on only the state behind the pattern matters, and its token.
  generalize paired : (s.insideDeclaration .const).insideDeclarator.boundPair .const = p at bound
  have atEquals : p.token = s.token.behind 6 := by
    rw [← paired, State.token_boundPair, inside]
    rfl
  have level : p.depth = s.depth := by
    rw [← paired, State.depth_boundPair, depth]
  have atCallee : { p.bumped with exporting := false : State }.token = s.token.behind 7 := by
    show p.bumped.token = _
    rw [State.token_bumped, atEquals]
    rfl
  have value : derive (n + 8) (.assignment false) c { p.bumped with exporting := false } =
      .ok .other { p.bumped.called with exporting := false } := by
    have call := derive_call (n := n) (c := c) (t := { p.bumped with exporting := false }) false
      (by rw [atCallee]; exact callee) (by rw [atCallee]; exact opening) (by rw [atCallee]; exact null)
      (by rw [atCallee]; exact closing) (by rw [atCallee]; exact next) (by omega) ?_
    · exact call.trans (by rw [State.called_exporting])
    · show p.bumped.depth + 3 < maxDepth
      rwa [State.depth_bumped, level]
  have declared : declarator (derive (n + 8)) .const false c (s.insideDeclaration .const) =
      .ok () s.declaredState := by
    rw [declarator_ok bound (by rw [atEquals]; exact equals) value
      (by rw [State.exporting_called, State.exporting_bumped]), s.size_insideDeclaration, ← paired]
    rfl
  refine varStatement_ok .const .const ?_ declared ?_ (by omega) ended
  · simp only [Token.isKeyword, Bool.and_eq_true, beq_iff_eq] at keyword
    rw [keyword.2]
    rfl
  · rw [s.token_declaredState]
    exact noComma

/-! ### The nodes of a declaration -/

/-- Between the states nodes were added, and all that was opened was closed. -/
structure State.Adds (s t : State) (added : List (NodeKind × Option NodeId)) : Prop where
  outline : t.outline = s.outline ++ added
  opened : t.opened = s.opened
  scope : t.scope = s.scope
  depth : t.depth = s.depth
  exporting : t.exporting = s.exporting

namespace State

theorem Adds.trans {first second : List (NodeKind × Option NodeId)} (one : s.Adds t first)
    (two : t.Adds u second) : s.Adds u (first ++ second) where
  outline := by rw [two.outline, one.outline, List.append_assoc]
  opened := two.opened.trans one.opened
  scope := two.scope.trans one.scope
  depth := two.depth.trans one.depth
  exporting := two.exporting.trans one.exporting

theorem Adds.size {added : List (NodeKind × Option NodeId)} (adds : s.Adds t added) :
    t.nodes.size = s.nodes.size + added.length := by
  rw [← length_outline, adds.outline, List.length_append, length_outline]

/-- Inside a declaration that was opened at a state nodes were added, its own the first of them. -/
structure InDeclaration (s t : State) (added : List (NodeKind × Option NodeId)) : Prop where
  outline : t.outline = s.outline ++ added
  opened : t.opened = ⟨s.nodes.size⟩ :: s.opened
  scope : t.scope = s.scope
  exporting : t.exporting = s.exporting

/-- Reading the end of a declaration adds no nodes. -/
theorem InDeclaration.sameTree {added : List (NodeKind × Option NodeId)} (inside : s.InDeclaration t added)
    (same : t.SameTree u) (flag : u.exporting = t.exporting) : s.InDeclaration u added where
  outline := by
    have unchanged : u.outline = t.outline := by rw [State.outline, State.outline, same.nodes]
    rw [unchanged, inside.outline]
  opened := same.opened.trans inside.opened
  scope := same.scope.trans inside.scope
  exporting := flag.trans inside.exporting

/-- Closing a declaration adds no more nodes. -/
theorem InDeclaration.adds {added : List (NodeKind × Option NodeId)} (inside : s.InDeclaration t added) :
    s.Adds { t.closeNode ⟨s.nodes.size⟩ with depth := s.depth } added where
  outline := by
    show (t.closeNode ⟨s.nodes.size⟩).outline = _
    rw [outline_closeNode, inside.outline]
  opened := by
    show ((t.opened.dropWhile (· ≠ ⟨s.nodes.size⟩)).drop 1) = _
    simp [inside.opened]
  scope := inside.scope
  depth := rfl
  exporting := inside.exporting

/-- The first item behind others is changed. -/
theorem modify_append {α : Type} (l : List α) (a : α) (r : List α) (f : α → α) :
    (l ++ a :: r).modify l.length f = l ++ f a :: r := by
  induction l with
  | nil => rfl
  | cons x l ih => simpa using ih

end State

/-- The node of a name that is declared as a binding of a kind. -/
def boundNode (name : String) (kind : BindingKind) (exported : Bool) : NodeKind :=
  .identifier { name, role := .binding { kind, exported } }

/-- The node of a name that refers to a binding. -/
def referringNode (name : String) : NodeKind :=
  .identifier { name, role := .reference }

namespace State

theorem adds_bumped (s : State) : s.Adds s.bumped [] where
  outline := by rw [outline_bumped, List.append_nil]
  opened := s.opened_bumped
  scope := s.scope_bumped
  depth := s.depth_bumped
  exporting := s.exporting_bumped

theorem adds_boundHere (s : State) (kind : BindingKind) : s.Adds (s.boundHere kind)
    [(boundNode (identifierName s.token) kind s.exporting, s.opened.head?)] where
  outline := by
    rw [boundHere, outline_bumped, outline_bind, Bool.false_or]
    rfl
  opened := opened_bumped _
  scope := scope_bumped _
  depth := depth_bumped _
  exporting := exporting_bumped _

theorem adds_boundPair (s : State) (kind : BindingKind) : s.Adds (s.boundPair kind)
    [(boundNode (identifierName (s.token.behind 1)) kind s.exporting, s.opened.head?),
      (boundNode (identifierName (s.token.behind 3)) kind s.exporting, s.opened.head?)] := by
  have first := s.adds_bumped.trans (s.bumped.adds_boundHere kind)
  have second := first.trans (s.bumped.boundHere kind).adds_bumped
  have third := second.trans ((s.bumped.boundHere kind).bumped.adds_boundHere kind)
  have all := third.trans (adds_bumped _)
  have atSecond : (s.bumped.boundHere kind).bumped.token = s.token.behind 3 := by
    rw [token_bumped, token_boundHere, token_bumped]
    rfl
  rw [token_bumped, opened_bumped, exporting_bumped, atSecond, second.opened, second.exporting] at all
  exact all

theorem adds_called (s : State) : s.Adds s.called
    [(referringNode (identifierName s.token), s.opened.head?)] where
  outline := by
    rw [called, outline_bumped, outline_bumped, outline_bumped, outline_bumped, outline_refer]
    rfl
  opened := by
    rw [called, opened_bumped, opened_bumped, opened_bumped, opened_bumped]
    rfl
  scope := by
    rw [called, scope_bumped, scope_bumped, scope_bumped, scope_bumped]
    rfl
  depth := s.depth_called
  exporting := s.exporting_called

theorem inDeclaration_insideDeclaration (s : State) (kind : VarKind) :
    s.InDeclaration (s.insideDeclaration kind) [(.varDeclaration kind, s.opened.head?)] where
  outline := by rw [insideDeclaration, outline_bumped, outline_openNode]
  opened := opened_bumped _
  scope := scope_bumped _
  exporting := exporting_bumped _

/-- A declarator adds its own node and those that are added inside it. -/
theorem InDeclaration.declarator {declaration : NodeKind × Option NodeId}
    {added : List (NodeKind × Option NodeId)} (inside : s.InDeclaration t [declaration])
    (inner : t.insideDeclarator.Adds u added) (name : Option NodeId) :
    s.InDeclaration (u.behindDeclarator ⟨t.nodes.size⟩ name)
      (declaration :: (.declarator { name }, some ⟨s.nodes.size⟩) :: added) where
  outline := by
    have size : t.nodes.size = (s.outline ++ [declaration]).length := by rw [← length_outline, inside.outline]
    have before : u.outline = (s.outline ++ [declaration]) ++ (.declarator {}, some ⟨s.nodes.size⟩) :: added := by
      rw [inner.outline, insideDeclarator, outline_openNode, inside.outline, inside.opened, List.append_assoc]
      rfl
    rw [behindDeclarator, outline_closeNode, outline_setKind, before, size, modify_append, List.append_assoc]
    rfl
  opened := by
    show ((u.opened.dropWhile (· ≠ ⟨t.nodes.size⟩)).drop 1) = _
    rw [inner.opened, ← inside.opened]
    simp [insideDeclarator, openNode]
  scope := inner.scope.trans inside.scope
  exporting := inner.exporting.trans inside.exporting

theorem inDeclaration_null (s : State) : s.InDeclaration s.declaredNull
    [(.varDeclaration .let, s.opened.head?),
      (.declarator { name := some ⟨s.nodes.size + 2⟩ }, some ⟨s.nodes.size⟩),
      (boundNode (identifierName (s.token.behind 1)) .let s.exporting, some ⟨s.nodes.size + 1⟩)] := by
  have inside := s.inDeclaration_insideDeclaration .let
  have inner := (((s.insideDeclaration .let).insideDeclarator.adds_boundHere .let).trans
    (adds_bumped _)).trans (adds_bumped _)
  have token : (s.insideDeclaration .let).insideDeclarator.token = s.token.behind 1 :=
    s.token_insideDeclaration .let
  have opened : (s.insideDeclaration .let).insideDeclarator.opened.head? = some ⟨s.nodes.size + 1⟩ := by
    rw [← s.size_insideDeclaration .let]
    rfl
  have exporting : (s.insideDeclaration .let).insideDeclarator.exporting = s.exporting := inside.exporting
  rw [token, opened, exporting] at inner
  have all := inside.declarator inner (some ⟨s.nodes.size + 2⟩)
  rw [s.size_insideDeclaration .let] at all
  exact all

theorem inDeclaration_state (s : State) : s.InDeclaration s.declaredState
    [(.varDeclaration .const, s.opened.head?), (.declarator {}, some ⟨s.nodes.size⟩),
      (boundNode (identifierName (s.token.behind 2)) .const s.exporting, some ⟨s.nodes.size + 1⟩),
      (boundNode (identifierName (s.token.behind 4)) .const s.exporting, some ⟨s.nodes.size + 1⟩),
      (referringNode (identifierName (s.token.behind 7)), some ⟨s.nodes.size + 1⟩)] := by
  have inside := s.inDeclaration_insideDeclaration .const
  have pair := ((s.insideDeclaration .const).insideDeclarator.adds_boundPair .const).trans (adds_bumped _)
  have inner := pair.trans (adds_called _)
  have token : (s.insideDeclaration .const).insideDeclarator.token = s.token.behind 1 :=
    s.token_insideDeclaration .const
  have opened : (s.insideDeclaration .const).insideDeclarator.opened.head? =
      some ⟨s.nodes.size + 1⟩ := by
    rw [← s.size_insideDeclaration .const]
    rfl
  have exporting : (s.insideDeclaration .const).insideDeclarator.exporting = s.exporting := inside.exporting
  rw [pair.opened, token_bumped, token_boundPair, token, opened, exporting] at inner
  have all := inside.declarator inner none
  rw [s.size_insideDeclaration .const] at all
  exact all

end State

end BindingRepair.Script.Grammar
