/-
# Running parsers on known tokens

What the small parsers do, given the current token. Constructs are run by rewriting with these lemmas.
-/

import BindingRepair.Proofs.Grammar.Runs
import BindingRepair.Script.Grammar

namespace BindingRepair.Script.Grammar

variable {α β σ : Type} {c : Context} {s : State}

namespace State

@[simp]
theorem token_bumped (s : State) : s.bumped.token = s.token.following := by
  obtain ⟨_, _, counted⟩ := s.countQuotes_cases
  simp [bumped, behind, counted]

@[simp]
theorem nodes_bumped (s : State) : s.bumped.nodes = s.nodes := by
  obtain ⟨_, _, counted⟩ := s.countQuotes_cases
  simp [bumped, behind, counted]

@[simp]
theorem scopes_bumped (s : State) : s.bumped.scopes = s.scopes := by
  obtain ⟨_, _, counted⟩ := s.countQuotes_cases
  simp [bumped, behind, counted]

@[simp]
theorem references_bumped (s : State) : s.bumped.references = s.references := by
  obtain ⟨_, _, counted⟩ := s.countQuotes_cases
  simp [bumped, behind, counted]

@[simp]
theorem opened_bumped (s : State) : s.bumped.opened = s.opened := by
  obtain ⟨_, _, counted⟩ := s.countQuotes_cases
  simp [bumped, behind, counted]

@[simp]
theorem scope_bumped (s : State) : s.bumped.scope = s.scope := by
  obtain ⟨_, _, counted⟩ := s.countQuotes_cases
  simp [bumped, behind, counted]

@[simp]
theorem depth_bumped (s : State) : s.bumped.depth = s.depth := by
  obtain ⟨_, _, counted⟩ := s.countQuotes_cases
  simp [bumped, behind, counted]

@[simp]
theorem inGenerator_bumped (s : State) : s.bumped.inGenerator = s.inGenerator := by
  obtain ⟨_, _, counted⟩ := s.countQuotes_cases
  simp [bumped, behind, counted]

@[simp]
theorem exporting_bumped (s : State) : s.bumped.exporting = s.exporting := by
  obtain ⟨_, _, counted⟩ := s.countQuotes_cases
  simp [bumped, behind, counted]

theorem bumped_depth (s : State) (depth : Nat) :
    ({ s with depth } : State).bumped = { s.bumped with depth } := by
  simp only [bumped, behind, countQuotes]
  split
  · split
    · rfl
    · rfl
    · rfl
  · rfl

theorem bumped_exporting (s : State) (exporting : Bool) :
    ({ s with exporting } : State).bumped = { s.bumped with exporting } := by
  simp only [bumped, behind, countQuotes]
  split
  · split
    · rfl
    · rfl
    · rfl
  · rfl

end State

/-! ### Sequences -/

theorem bind_ok {p : Parser α} {f : α → Parser β} {a : α} {t : State} (first : p c s = .ok a t) :
    (p >>= f) c s = f a c t := by
  rw [bind_apply, first]

@[simp]
theorem map_apply (p : Parser α) (f : α → β) : (f <$> p) c s = match p c s with
    | .ok a t => .ok (f a) t
    | .error e t => .error e t :=
  bind_apply p (fun a => pure (f a)) c s

@[simp]
theorem pure_apply (a : α) : (pure a : Parser α) c s = .ok a s :=
  rfl

@[simp]
theorem get_apply : (get : Parser State) c s = .ok s s :=
  rfl

@[simp]
theorem read_apply : (read : Parser Context) c s = .ok c s :=
  rfl

@[simp]
theorem modify_apply (f : State → State) : (modify f : Parser PUnit) c s = .ok ⟨⟩ (f s) :=
  rfl

@[simp]
theorem ite_apply {test : Prop} [Decidable test] (p q : Parser α) :
    (if test then p else q) c s = if test then p c s else q c s := by
  split <;> rfl

/-! ### Loops -/

theorem loopUpTo_done {init : σ} {step : σ → Parser (Sum σ α)} {result : α} {n : Nat} {t : State}
    (round : step init c s = .ok (.inr result) t) : loopUpTo step (n + 1) init c s = .ok result t := by
  rw [loopUpTo, bind_ok round]
  rfl

theorem loopUpTo_more {init next : σ} {step : σ → Parser (Sum σ α)} {n : Nat} {t : State}
    (round : step init c s = .ok (.inl next) t) : loopUpTo step (n + 1) init c s = loopUpTo step n next c t := by
  rw [loopUpTo, bind_ok round]

/-- A loop whose first round has a result. -/
theorem loop_done {init : σ} {step : σ → Parser (Sum σ α)} {result : α} {t : State}
    (bounded : 0 < c.bound) (round : step init c s = .ok (.inr result) t) :
    loop init step c s = .ok result t := by
  obtain ⟨n, bound⟩ := Nat.exists_eq_succ_of_ne_zero (Nat.ne_of_gt bounded)
  rw [loop, bind_ok read_apply, bound, loopUpTo_done round]

/-- A loop whose second round has a result. -/
theorem loop_twice {init : σ} (next : σ) {step : σ → Parser (Sum σ α)} {result : α} {t u : State}
    (bounded : 1 < c.bound) (first : step init c s = .ok (.inl next) t)
    (second : step next c t = .ok (.inr result) u) : loop init step c s = .ok result u := by
  obtain ⟨n, bound⟩ : ∃ n, c.bound = n + 2 := ⟨c.bound - 2, by omega⟩
  rw [loop, bind_ok read_apply, bound, loopUpTo_more first, loopUpTo_done second]

theorem repeatWhile_done {step : Parser Bool} {t : State} (bounded : 0 < c.bound)
    (round : step c s = .ok false t) : repeatWhile step c s = .ok () t :=
  loop_done bounded (by simp [bind_apply, round])

theorem repeatWhile_thrice {step : Parser Bool} {t u v : State} (bounded : 2 < c.bound)
    (first : step c s = .ok true t) (second : step c t = .ok true u) (third : step c u = .ok false v) :
    repeatWhile step c s = .ok () v := by
  obtain ⟨n, bound⟩ : ∃ n, c.bound = n + 3 := ⟨c.bound - 3, by omega⟩
  simp [repeatWhile, loop, bind_apply, bound, loopUpTo, first, second, third]

/-- One level deeper the parser does the same, unless that is too deep. -/
theorem nested_ok {body : Parser α} {a : α} {t : State} (shallow : s.depth < maxDepth)
    (inner : body c { s with depth := s.depth + 1 } = .ok a { t with depth := s.depth + 1 })
    (same : t.depth = s.depth) : nested body c s = .ok a t := by
  have fits : ¬ s.depth + 1 > maxDepth := by omega
  simp only [nested, bind_apply, modify_apply, get_apply, fits, if_false, pure_apply, inner,
    Nat.add_sub_cancel]
  rw [← same]

theorem withExporting_ok {p : Parser α} {a : α} {t : State} (exporting : Bool)
    (inner : p c { s with exporting } = .ok a { t with exporting }) (same : t.exporting = s.exporting) :
    withExporting exporting p c s = .ok a t := by
  simp only [withExporting, bind_apply, get_apply, modify_apply, inner, pure_apply]
  rw [← same]

/-! ### Tokens -/

/-- A token is one punctuator at most. -/
theorem isPunctuator_of_ne {t : Token} {mark other : String} (here : t.isPunctuator mark = true)
    (different : mark ≠ other) : t.isPunctuator other = false := by
  simp only [Token.isPunctuator, Bool.and_eq_true, beq_iff_eq] at here
  simp [Token.isPunctuator, here, different]

theorem reread_apply (again : Token → Token) : reread again c s = .ok () { s with token := again s.token } :=
  rfl

@[simp]
theorem currentToken_apply : currentToken c s = .ok s.token s :=
  rfl

@[simp]
theorem currentKind_apply : currentKind c s = .ok s.token.kind s :=
  rfl

@[simp]
theorem currentStart_apply : currentStart c s = .ok s.token.start s :=
  rfl

@[simp]
theorem isTypescript_apply : isTypescript c s = .ok c.dialect.typescript s :=
  rfl

@[simp]
theorem allowsElements_apply : allowsElements c s = .ok c.dialect.jsx s :=
  rfl

@[simp]
theorem isAt_apply (mark : String) : isAt mark c s = .ok (s.token.isPunctuator mark) s :=
  rfl

@[simp]
theorem isTypedAt_apply (mark : String) :
    isTypedAt mark c s = .ok (c.dialect.typescript && s.token.isPunctuator mark) s :=
  rfl

@[simp]
theorem isAtWord_apply (word : String) : isAtWord word c s = .ok (s.token.isKeyword word) s :=
  rfl

@[simp]
theorem isAtEnd_apply : isAtEnd c s = .ok (s.token.kind == .endOfText) s :=
  rfl

@[simp]
theorem isAtBindingName_apply : isAtBindingName c s = .ok (namesBinding s.token) s :=
  rfl

@[simp]
theorem peek_apply : peek c s = .ok s.token.following s :=
  rfl

@[simp]
theorem peekIs_apply (mark : String) :
    peekIs mark c s = .ok (s.token.following.isPunctuator mark) s :=
  rfl

@[simp]
theorem peekIsWord_apply (word : String) :
    peekIsWord word c s = .ok (s.token.following.isKeyword word) s :=
  rfl

@[simp]
theorem bindCurrent_apply (site : BindingSite) :
    bindCurrent site c s = .ok ⟨s.nodes.size⟩ (s.bind s.token site).bumped := by
  show (bump >>= fun _ => (pure _ : Parser NodeId)) c (s.bind s.token site) = _
  rw [bind_ok bump_apply, pure_apply]

@[simp]
theorem bindName_apply (kind : BindingKind) :
    bindName kind c s = .ok ⟨s.nodes.size⟩ (s.bind s.token { kind }).bumped :=
  bindCurrent_apply { kind }

theorem eat_apply (mark : String) : eat mark c s =
    if s.token.isPunctuator mark then .ok true s.bumped else .ok false s := by
  unfold eat
  rw [bind_ok (isAt_apply mark)]
  split
  · rw [bind_ok bump_apply, pure_apply]
  · rfl

/-! ### Ends of statements -/

/-- A statement ends before the token without a semicolon. -/
def endsStatement (t : Token) : Bool :=
  t.isPunctuator "\x7d" || t.kind == .endOfText || t.newlineBefore

theorem consumeSemicolon_semicolon (semicolon : s.token.isPunctuator ";" = true) :
    consumeSemicolon c s =
      .ok () { s.bumped with explicitSemicolons := s.bumped.explicitSemicolons + 1 } := by
  simp [consumeSemicolon, bind_apply, eat_apply, semicolon]

theorem consumeSemicolon_inserted (noSemicolon : s.token.isPunctuator ";" = false)
    (ends : endsStatement s.token = true) :
    consumeSemicolon c s = .ok () { s with insertedSemicolons := s.insertedSemicolons + 1 } := by
  unfold endsStatement at ends
  simp only [consumeSemicolon, bind_apply, eat_apply, noSemicolon, ite_apply, isAt_apply, isAtEnd_apply,
    currentToken_apply, ends, Bool.false_eq_true, if_false, if_true, modify_apply]

end BindingRepair.Script.Grammar
