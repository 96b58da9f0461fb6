/-
# Trials leave no trace but quotes

Angle brackets behind an operand are read on trial, token by token. Where they turn out to be no type
arguments the place is put back, and the tree, the scopes, the flags and the counters of nesting and
semicolons have not been touched. Only the quotes of the strings read on the way stay counted.
-/

import BindingRepair.Proofs.Termination.Types

namespace BindingRepair.Script.Grammar

variable {c : Context} {s t u : State} {tokens more : List Token}

/-! ### Counting quotes -/

/-- Whether a token is a string that opens with a quote. -/
def opensWithQuote (quote : Char) (t : Token) : Bool :=
  t.kind == .string && t.text.toList.head? == some quote

/-- The state with the quotes of tokens counted. -/
def State.counting (s : State) (tokens : List Token) : State :=
  { s with
    singleQuotes := s.singleQuotes + tokens.countP (opensWithQuote '\'')
    doubleQuotes := s.doubleQuotes + tokens.countP (opensWithQuote '"') }

theorem State.counting_append (s : State) (tokens more : List Token) :
    s.counting (tokens ++ more) = (s.counting tokens).counting more := by
  simp only [counting, List.countP_append, Nat.add_assoc]

theorem State.countQuotes_eq (s : State) : s.countQuotes = s.counting [s.token] := by
  unfold countQuotes counting
  by_cases string : s.token.kind = .string
  · rw [if_pos (beq_iff_eq.mpr string)]
    split
    next here => simp [opensWithQuote, string, here]
    next here => simp [opensWithQuote, string, here]
    next single double =>
      simp only [opensWithQuote, string, List.countP_singleton, BEq.rfl, Bool.true_and, beq_iff_eq, if_neg single,
        if_neg double, Nat.add_zero]
  · rw [if_neg (mt beq_iff_eq.mp string)]
    simp [opensWithQuote, string]

/-- Nothing has been counted exactly if none of the tokens is a string in quotes. -/
theorem State.counting_eq_iff (s : State) (tokens : List Token) :
    s.counting tokens = s ↔ ∀ t ∈ tokens, opensWithQuote '\'' t = false ∧ opensWithQuote '"' t = false := by
  constructor
  · intro same t here
    have single := congrArg State.singleQuotes same
    have double := congrArg State.doubleQuotes same
    simp only [counting, Nat.add_eq_left, List.countP_eq_zero, Bool.not_eq_true] at single double
    exact ⟨single t here, double t here⟩
  · intro none
    have single : tokens.countP (opensWithQuote '\'') = 0 :=
      List.countP_eq_zero.mpr fun t here => Bool.eq_false_iff.mp (none t here).1
    have double : tokens.countP (opensWithQuote '"') = 0 :=
      List.countP_eq_zero.mpr fun t here => Bool.eq_false_iff.mp (none t here).2
    rw [counting, single, double]
    rfl

/-! ### Reading token by token -/

/-- Tokens are read one after another, where the current one may be read again in another context. -/
inductive State.Reads : State → List Token → State → Prop
  | refl (s : State) : s.Reads [] s
  | bump {s t : State} {tokens : List Token} (rest : s.bumped.Reads tokens t) : s.Reads (s.token :: tokens) t
  | reread {s t : State} {tokens : List Token} (again : Token → Token) [Rereads again]
      (rest : State.Reads { s with token := again s.token } tokens t) : s.Reads tokens t

theorem State.Reads.trans (first : s.Reads tokens t) (second : t.Reads more u) : s.Reads (tokens ++ more) u := by
  induction first with
  | refl s => exact second
  | bump rest ih => exact .bump (ih second)
  | reread again rest ih => exact .reread again (ih second)

/-- The state at the place of another one. -/
def State.placedAs (s place : State) : State :=
  { s with token := place.token, previousEnd := place.previousEnd }

theorem State.bumped_eq (s : State) : s.bumped = (s.counting [s.token]).placedAs s.bumped := by
  simp only [bumped, behind, countQuotes_eq]
  rfl

/-- Beside the place only the counters of quotes change, by the tokens that have been read. -/
theorem State.Reads.eq (reads : s.Reads tokens t) : t = (s.counting tokens).placedAs t := by
  induction reads with
  | refl s => rfl
  | @bump s t tokens rest ih =>
      rw [s.bumped_eq] at ih
      rw [← List.singleton_append, State.counting_append]
      exact ih
  | reread again rest ih => exact ih

/-! ### Groups in brackets -/

/-- Tokens are read, also where the parser fails. -/
def readingTokens : Effect where
  ok s t := ∃ tokens, s.Reads tokens t
  error s t := ∃ tokens, s.Reads tokens t
  refl s := ⟨[], .refl s⟩
  trans := fun ⟨_, first⟩ ⟨_, second⟩ => ⟨_, first.trans second⟩
  fails s := ⟨[], .refl s⟩
  then_fails := fun ⟨_, first⟩ ⟨_, second⟩ => ⟨_, first.trans second⟩

instance (again : Token → Token) [Rereads again] : Acts readingTokens (reread again) :=
  ⟨fun _ _ => ⟨[], .reread again (.refl _)⟩⟩

instance : Acts readingTokens bump := by
  refine ⟨fun c s => ?_⟩
  rw [bump_apply]
  exact ⟨[s.token], .bump (.refl _)⟩

instance (typesOnly : Bool) : Acts readingTokens (balanced typesOnly) := by
  have step (stack : List Bracket) : Acts readingTokens (groupStep typesOnly stack) :=
    Acts.groupStep (fun _ => inferInstance) typesOnly stack
  unfold balanced
  infer_instance

/-! ### Type arguments on trial -/

theorem State.Reads.backTo_eq (reads : s.Reads tokens t) : s.backTo t = s.counting tokens := by
  rw [reads.eq]
  rfl

/-- Where a trial is denied, it has failed or what follows has not been accepted. -/
theorem attempt_denied {body : Parser Unit} {accept : Parser Bool} (accepts : State → Bool)
    (looks : ∀ u, accept c u = .ok (accepts u) u) (denied : attempt body accept c s = .ok false t) :
    ∃ u, t = s.backTo u ∧ ((∃ e, body c s = .error e u) ∨ body c s = .ok () u ∧ accepts u = false) := by
  unfold attempt at denied
  dsimp only at denied
  cases tried : body c s with
  | error e u =>
      rw [tried] at denied
      dsimp only at denied
      split at denied
      · cases denied
      · cases denied
        exact ⟨u, rfl, .inl ⟨e, rfl⟩⟩
  | ok a u =>
      rw [tried] at denied
      dsimp only at denied
      rw [looks u] at denied
      cases accepted : accepts u with
      | true =>
          rw [accepted] at denied
          cases denied
      | false =>
          rw [accepted] at denied
          cases denied
          exact ⟨u, rfl, .inr ⟨rfl, accepted⟩⟩

/-- Whether a call or a template begins, as it has to behind type arguments. -/
def State.atApplication (s : State) : Bool :=
  s.token.isPunctuator "(" || s.token.isTemplateStart

/-- Tokens are read on a trial that fails: the brackets are not those of type arguments, or neither a call
nor a template follows. -/
def State.FailsTrial (s : State) (c : Context) (tokens : List Token) : Prop :=
  ∃ u, s.Reads tokens u ∧
    ((∃ e, balanced true c s = .error e u) ∨ balanced true c s = .ok () u ∧ u.atApplication = false)

/-- Where there are no type arguments, the state is as before but for the quotes of the strings that have been
read on trial, and a trial takes place only at an opening angle of a script with types. -/
theorem typeArguments_denied (denied : typeArguments c s = .ok false t) :
    t = s ∨ c.dialect.typescript = true ∧ s.token.isPunctuator "<" = true ∧
      ∃ tokens, s.FailsTrial c tokens ∧ t = s.counting tokens ∧
        (t = s ↔ ∀ token ∈ tokens, opensWithQuote '\'' token = false ∧ opensWithQuote '"' token = false) := by
  unfold typeArguments at denied
  rw [bind_ok (isTypedAt_apply "<")] at denied
  cases begins : c.dialect.typescript && s.token.isPunctuator "<" with
  | false =>
      rw [begins] at denied
      cases denied
      exact .inl rfl
  | true =>
      rw [begins] at denied
      obtain ⟨typescript, angle⟩ := Bool.and_eq_true_iff.mp begins
      refine .inr ⟨typescript, angle, ?_⟩
      obtain ⟨u, rfl, ends⟩ := attempt_denied State.atApplication (fun _ => rfl) denied
      have acts := (inferInstance : Acts readingTokens (balanced true)).acts c s
      obtain ⟨tokens, reads⟩ : ∃ tokens, s.Reads tokens u := by
        rcases ends with ⟨e, failed⟩ | ⟨done, -⟩
        · rwa [failed] at acts
        · rwa [done] at acts
      exact ⟨tokens, ⟨u, reads, ends⟩, reads.backTo_eq, reads.backTo_eq ▸ s.counting_eq_iff tokens⟩

/-- A string behind an angle that turns out to be a comparison is counted twice in a script with types. -/
example : [Dialect.javascript, .typed].map (fun dialect =>
      (parse "import \x7b a \x7d from 'a'\nif (a < \"x\") a()\n" dialect).toOption.map (·.style.quote)) =
    [some '\'', some '"'] := by
  decide +kernel

end BindingRepair.Script.Grammar
