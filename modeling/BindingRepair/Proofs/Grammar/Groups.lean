/-
# Groups in brackets

What is read as one group is one: between its brackets the others nest. Within round brackets, square brackets and
braces angle brackets count for nothing; within angle brackets they nest like the others. The brackets that are open
tell, in the order of the text, what has been read behind each of them, and this is kept from token to token. A group
that is not closed, or in which another bracket is closed than the one that is open, ends in a failure.
-/

import BindingRepair.Proofs.Grammar.Trials
import BindingRepair.Proofs.Termination.Parsing

namespace BindingRepair.Script.Grammar

open Text

/-! ### Brackets and their nesting -/

/-- A bracket that is opened or closed. -/
inductive Mark
  | opens (b : Bracket)
  | closes (b : Bracket)
deriving DecidableEq, Repr

/-- The bracket of a mark. -/
def Mark.bracket : Mark → Bracket
  | opens b | closes b => b

/-- The marks of all brackets but the angles. -/
def withoutAngles (marks : List Mark) : List Mark :=
  marks.filter fun m => m.bracket != .angle

theorem withoutAngles_append (marks more : List Mark) :
    withoutAngles (marks ++ more) = withoutAngles marks ++ withoutAngles more :=
  List.filter_append ..

theorem withoutAngles_cons_angle {m : Mark} (angle : m.bracket = .angle) (marks : List Mark) :
    withoutAngles (m :: marks) = withoutAngles marks :=
  List.filter_cons_of_neg (by simp [angle])

theorem withoutAngles_cons {m : Mark} (other : m.bracket ≠ .angle) (marks : List Mark) :
    withoutAngles (m :: marks) = m :: withoutAngles marks :=
  List.filter_cons_of_pos (by simp [other])

/-- Every bracket is closed, behind what it opened last. -/
inductive Nested : List Mark → Prop
  | nil : Nested []
  | group {inner rest : List Mark} (b : Bracket) (within : Nested inner) (behind : Nested rest) :
      Nested (.opens b :: inner ++ .closes b :: rest)

/-- What stands between angles: groups in angles, and groups in other brackets, where angles count for nothing. -/
inductive NestedInAngles : List Mark → Prop
  | nil : NestedInAngles []
  | angles {inner rest : List Mark} (within : NestedInAngles inner) (behind : NestedInAngles rest) :
      NestedInAngles (.opens .angle :: inner ++ .closes .angle :: rest)
  | group {inner rest : List Mark} (b : Bracket) (other : b ≠ .angle) (within : Nested (withoutAngles inner))
      (behind : NestedInAngles rest) : NestedInAngles (.opens b :: inner ++ .closes b :: rest)

/-- What may stand within a bracket. -/
def Bracket.Encloses : Bracket → List Mark → Prop
  | .angle, marks => NestedInAngles marks
  | _, marks => Nested (withoutAngles marks)

variable {b : Bracket} {marks more : List Mark}

theorem Nested.append (first : Nested marks) (second : Nested more) : Nested (marks ++ more) := by
  induction first with
  | nil => exact second
  | group b within behind _ ih =>
      rw [List.append_assoc, List.cons_append]
      exact .group b within ih

theorem NestedInAngles.append (first : NestedInAngles marks) (second : NestedInAngles more) :
    NestedInAngles (marks ++ more) := by
  induction first with
  | nil => exact second
  | angles within behind _ ih =>
      rw [List.append_assoc, List.cons_append]
      exact .angles within ih
  | group b other within behind ih =>
      rw [List.append_assoc, List.cons_append]
      exact .group b other within ih

/-- A group stays one where angles count for nothing, or its brackets count for nothing. -/
theorem Nested.withoutAngles_group {inner rest : List Mark} (within : Nested (withoutAngles inner))
    (behind : Nested (withoutAngles rest)) : Nested (withoutAngles (.opens b :: inner ++ .closes b :: rest)) := by
  rw [List.cons_append]
  by_cases angle : b = .angle
  · subst angle
    rw [withoutAngles_cons_angle rfl, withoutAngles_append, withoutAngles_cons_angle rfl]
    exact within.append behind
  · rw [withoutAngles_cons (m := .opens b) angle, withoutAngles_append, withoutAngles_cons (m := .closes b) angle]
    exact .group b within behind

/-- Where angles count for nothing, the groups between angles nest as well. -/
theorem NestedInAngles.nested (between : NestedInAngles marks) : Nested (withoutAngles marks) := by
  induction between with
  | nil => exact .nil
  | angles within behind ihWithin ihBehind => exact ihWithin.withoutAngles_group ihBehind
  | group b other within behind ih => exact within.withoutAngles_group ih

namespace Bracket

theorem encloses_of_ne (other : b ≠ .angle) : b.Encloses marks ↔ Nested (withoutAngles marks) := by
  cases b with
  | angle => exact absurd rfl other
  | _ => rfl

theorem encloses_nil (b : Bracket) : b.Encloses [] := by
  cases b with
  | angle => exact .nil
  | _ => exact .nil

theorem Encloses.nested (encloses : b.Encloses marks) : Nested (withoutAngles marks) := by
  cases b with
  | angle => exact NestedInAngles.nested encloses
  | _ => exact encloses

/-- What nests apart from angles may follow where they count for nothing. -/
theorem Encloses.append (encloses : b.Encloses marks) (other : b ≠ .angle) (nested : Nested (withoutAngles more)) :
    b.Encloses (marks ++ more) := by
  rw [encloses_of_ne other] at encloses ⊢
  rw [withoutAngles_append]
  exact encloses.append nested

/-- A whole group may follow in any bracket. -/
theorem Encloses.group {inner : List Mark} {a : Bracket} (encloses : b.Encloses marks) (within : a.Encloses inner) :
    b.Encloses (marks ++ (.opens a :: inner ++ [.closes a])) := by
  by_cases between : b = .angle
  · subst between
    refine NestedInAngles.append encloses ?_
    by_cases angle : a = .angle
    · subst angle
      exact .angles within .nil
    · exact .group a angle within.nested .nil
  · exact encloses.append between (within.nested.withoutAngles_group .nil)

end Bracket

/-- Behind a bracket some marks have been read, which leave brackets open, innermost first. The bracket is the last of
them. -/
inductive LeavesOpen (b : Bracket) : List Mark → List Bracket → Prop
  | within {marks : List Mark} (encloses : b.Encloses marks) : LeavesOpen b marks [b]
  | opened {marks inner : List Mark} {stack : List Bracket} {a : Bracket} (around : LeavesOpen b marks stack)
      (encloses : a.Encloses inner) : LeavesOpen b (marks ++ .opens a :: inner) (a :: stack)

namespace LeavesOpen

variable {a : Bracket} {stack rest : List Bracket}

/-- Angles that are open count for nothing where another bracket is closed: what is open without them is left open, and
what nests apart from angles may follow. -/
theorem unangled (leaves : LeavesOpen b marks stack) (innermost : stack.dropWhile (· == .angle) = a :: rest)
    (nested : Nested (withoutAngles more)) : LeavesOpen b (marks ++ more) (a :: rest) := by
  induction leaves generalizing more with
  | @within marks encloses =>
      by_cases angle : b = .angle
      · simp [angle] at innermost
      · simp only [List.dropWhile_cons, beq_iff_eq, angle, if_false, List.cons.injEq] at innermost
        obtain ⟨rfl, rfl⟩ := innermost
        exact .within (encloses.append angle nested)
  | @opened marks inner stack open' around encloses ih =>
      rw [List.append_assoc, List.cons_append]
      by_cases angle : open' = .angle
      · subst angle
        refine ih innermost ?_
        rw [withoutAngles_cons_angle rfl, withoutAngles_append]
        exact encloses.nested.append nested
      · simp only [List.dropWhile_cons, beq_iff_eq, angle, if_false, List.cons.injEq] at innermost
        obtain ⟨rfl, rfl⟩ := innermost
        exact .opened around (encloses.append angle nested)

theorem dropAngles (leaves : LeavesOpen b marks stack) (innermost : stack.dropWhile (· == .angle) = a :: rest) :
    LeavesOpen b marks (a :: rest) := by
  have none : Nested (withoutAngles []) := .nil
  have within := leaves.unangled innermost none
  rwa [List.append_nil] at within

/-- The innermost bracket is closed. -/
theorem close (leaves : LeavesOpen b marks (a :: stack)) :
    (stack = [] ∧ a = b ∧ b.Encloses marks) ∨ LeavesOpen b (marks ++ [.closes a]) stack := by
  cases leaves with
  | within encloses => exact .inl ⟨rfl, rfl, encloses⟩
  | @opened marks inner _ _ around encloses =>
      refine .inr ?_
      rw [List.append_assoc, List.cons_append]
      cases around with
      | within enclosesAround => exact .within (enclosesAround.group encloses)
      | opened around' enclosesAround =>
          rw [List.append_assoc, List.cons_append]
          exact .opened around' (enclosesAround.group encloses)

theorem ne_nil (leaves : LeavesOpen b marks stack) : stack ≠ [] := by
  cases leaves with
  | within => exact List.cons_ne_nil _ _
  | opened => exact List.cons_ne_nil _ _

end LeavesOpen

/-! ### Tokens -/

/-- The bracket other than an angle that a punctuator closes, unless a template goes on there. -/
def Bracket.closed? : String → Option Bracket
  | ")" => some .paren
  | "]" => some .square
  | "\x7d" => some .brace
  | _ => none

/-- The punctuator that closes a bracket, or with which a template goes on behind a substitution. -/
def Bracket.closing : Bracket → String
  | .paren => ")"
  | .square => "]"
  | .brace | .substitution => "\x7d"
  | .angle => ">"

/-- Round and square brackets are told by what closes them. -/
theorem Bracket.eq_of_closing_eq {a b : Bracket} (single : a = .paren ∨ a = .square) (same : b.closing = a.closing) :
    b = a := by
  rcases single with rfl | rfl
  · cases b with
    | paren => rfl
    | _ => exact absurd same (by decide)
  · cases b with
    | square => rfl
    | _ => exact absurd same (by decide)

/-- The brackets that a token opens and closes. Several angles may be closed by one token. -/
def marksOf (t : Token) : List Mark :=
  match t.kind with
  | .template .head => [.opens .substitution]
  | .template .middle => [.closes .substitution, .opens .substitution]
  | .template .tail => [.closes .substitution]
  | .punctuator =>
    match Bracket.opened? t.text, Bracket.closed? t.text with
    | some b, _ => [.opens b]
    | none, some b => [.closes b]
    | none, none => (t.text.toList.takeWhile (· == '>')).map fun _ => .closes .angle
  | _ => []

/-- In a group a token is read as it is, or as the first `>` of it, or as the template piece that a brace opens. -/
inductive ReadAs : Token → Token → Prop
  | same (t : Token) : ReadAs t t
  | greater {t : Token} (opens : t.opensWithGreater = true) : ReadAs t t.asGreater
  | continuation {t : Token} (brace : t.isPunctuator "\x7d" = true) : ReadAs t t.asTemplateContinuation

/-- A token that is read where some brackets are open leaves others open. -/
inductive Counts (stack : List Bracket) (t : Token) : List Bracket → Prop
  | opens {a : Bracket} (marks : marksOf t = [.opens a]) : Counts stack t (a :: stack)
  /-- With the bracket all angles in it are closed. -/
  | closes {rest : List Bracket} {a : Bracket} (marks : marksOf t = [.closes a])
      (closing : a ≠ .substitution → t.isPunctuator a.closing = true)
      (innermost : stack.dropWhile (· == .angle) = a :: rest) : Counts stack t rest
  /-- A substitution follows another in a template. -/
  | continues {rest : List Bracket} (marks : marksOf t = [.closes .substitution, .opens .substitution])
      (innermost : stack.dropWhile (· == .angle) = .substitution :: rest) : Counts stack t (.substitution :: rest)
  | closesAngle {rest : List Bracket} (closing : t.isPunctuator ">" = true) (innermost : stack = .angle :: rest) :
      Counts stack t rest
  /-- The token is no bracket, or an angle where another bracket is open. -/
  | passes (angles : ∀ m ∈ marksOf t, m = .closes .angle)
      (outside : marksOf t = [] ∨ stack.head? ≠ some .angle) : Counts stack t stack

/-- A token ends a group with a failure: there is none, another bracket is closed than the one that is open, or an
operator stands between angles that may not stand among types. -/
inductive Blocks (typesOnly : Bool) (stack : List Bracket) (t : Token) : Prop
  | ends (none : t.kind = .endOfText ∨ t.kind = .invalid)
  | closes {a : Bracket} (closing : t.isPunctuator a.closing = true) (solid : a ≠ .angle)
      (other : ∀ b ∈ (stack.dropWhile (· == .angle)).head?, b.closing ≠ a.closing)
  | denied (types : typesOnly = true) (angle : stack.head? = some .angle) (punctuator : t.kind = .punctuator)
      (operator : mayStandInTypeArguments t.text = false)

/-- Where a token leaves no bracket open it closes the first, and else it may be added to what has been read. -/
theorem LeavesOpen.counts {stack rest : List Bracket} {t : Token} (leaves : LeavesOpen b marks stack)
    (counts : Counts stack t rest) (solid : b ≠ .substitution) :
    (rest = [] ∧ b.Encloses marks ∧ t.isPunctuator b.closing = true) ∨ LeavesOpen b (marks ++ marksOf t) rest := by
  cases counts with
  | opens opened =>
      rw [opened]
      exact .inr (.opened leaves (Bracket.encloses_nil _))
  | closes closed closing innermost =>
      rw [closed]
      refine (leaves.dropAngles innermost).close.imp_left fun ⟨last, same, encloses⟩ => ⟨last, encloses, ?_⟩
      exact same ▸ closing (same ▸ solid)
  | continues again innermost =>
      rcases (leaves.dropAngles innermost).close with ⟨-, same, -⟩ | behind
      · exact absurd same.symm solid
      · rw [again, List.append_cons]
        exact .inr (.opened behind (Bracket.encloses_nil _))
  | closesAngle closing innermost =>
      subst innermost
      have angle : marksOf t = [.closes .angle] := by
        obtain ⟨kind, text⟩ := Bool.and_eq_true_iff.mp closing
        rw [marksOf, beq_iff_eq.mp kind, beq_iff_eq.mp text]
        rfl
      rw [angle]
      exact leaves.close.imp_left fun ⟨last, same, encloses⟩ => ⟨last, encloses, same ▸ closing⟩
  | passes angles outside =>
      refine .inr ?_
      rcases outside with none | outside
      · rwa [none, List.append_nil]
      · obtain ⟨a, rest, rfl⟩ := List.exists_cons_of_ne_nil leaves.ne_nil
        have other : a ≠ .angle := fun angle => outside (angle ▸ rfl)
        refine leaves.unangled (by simp [other]) ?_
        have none : withoutAngles (marksOf t) = [] := by
          refine List.filter_eq_nil_iff.mpr fun m here => ?_
          rw [angles m here]
          decide
        rw [none]
        exact .nil

/-! ### Rounds -/

section Marks

variable {t : Token}

theorem marksOf_of_opened (kind : t.kind = .punctuator) (opened : Bracket.opened? t.text = some b) :
    marksOf t = [.opens b] := by
  simp only [marksOf, kind, opened]

theorem marksOf_of_closed (kind : t.kind = .punctuator) (closed : Bracket.closed? t.text = some b) :
    marksOf t = [.closes b] ∧ t.isPunctuator b.closing = true ∧ b ≠ .angle := by
  have mark : ∀ text, Bracket.closed? text = some b → Bracket.opened? text = none ∧ text = b.closing ∧ b ≠ .angle := by
    intro text closed
    unfold Bracket.closed? at closed
    split at closed
    all_goals cases closed
    all_goals exact ⟨rfl, rfl, Bracket.noConfusion⟩
  obtain ⟨none, text, other⟩ := mark t.text closed
  refine ⟨?_, by simp [Token.isPunctuator, kind, text], other⟩
  simp only [marksOf, kind, none, closed]

/-- Other punctuators close angles, as many as they begin with. -/
theorem marksOf_of_other (kind : t.kind = .punctuator) (unopened : Bracket.opened? t.text = none)
    (unclosed : Bracket.closed? t.text = none) :
    (∀ m ∈ marksOf t, m = .closes .angle) ∧ (t.opensWithGreater = false → marksOf t = []) := by
  have marks : marksOf t = (t.text.toList.takeWhile (· == '>')).map fun _ => .closes .angle := by
    simp only [marksOf, kind, unopened, unclosed]
  refine ⟨fun m here => ?_, fun other => ?_⟩
  · rw [marks] at here
    obtain ⟨-, -, rfl⟩ := List.mem_map.mp here
    rfl
  · rw [marks]
    cases chars : t.text.toList with
    | nil => rfl
    | cons c cs =>
        have first : (c == '>') = false := by simpa [Token.opensWithGreater, kind, chars] using other
        rw [List.takeWhile_cons, first]
        rfl

end Marks

variable {c : Context} {s : State} {stack : List Bracket} {typesOnly : Bool}

/-- How a round of a group ends: it reads a token that leaves some brackets open, or fails at one that ends the
group. -/
def RoundEnds (typesOnly : Bool) (stack : List Bracket) (s : State) : EStateM.Result Failure State (List Bracket) → Prop
  | .ok rest u => ∃ t, u = { s with token := t } ∧ ReadAs s.token t ∧ Counts stack t rest
  | .error e u => ∃ t, u = { s with token := t } ∧ ReadAs s.token t ∧ Blocks typesOnly stack t ∧
      e = ⟨t.start, .unexpected (describe t)⟩

theorem roundEnds_unexpected {f : Unit → Parser (List Bracket)} (blocks : Blocks typesOnly stack s.token) :
    RoundEnds typesOnly stack s ((unexpected >>= f) c s) :=
  ⟨s.token, rfl, .same _, blocks, rfl⟩

/-- A bracket that is not that of a template is closed if it is the innermost but for angles. -/
theorem roundEnds_closing {a : Bracket} {f : Unit → Parser (List Bracket)} (kind : s.token.kind = .punctuator)
    (closed : Bracket.closed? s.token.text = some a) (single : a = .paren ∨ a = .square) :
    RoundEnds typesOnly stack s ((if ((stack.dropWhile (· == .angle)).head? == some a) = true
      then pure ((stack.dropWhile (· == .angle)).drop 1) else unexpected >>= f) c s) := by
  obtain ⟨marks, closing, solid⟩ := marksOf_of_closed kind closed
  by_cases innermost : ((stack.dropWhile (· == .angle)).head? == some a) = true
  · rw [if_pos innermost]
    obtain ⟨rest, is⟩ := List.head?_eq_some_iff.mp (beq_iff_eq.mp innermost)
    rw [is]
    exact ⟨s.token, rfl, .same _, .closes marks (fun _ => closing) is⟩
  · rw [if_neg innermost]
    refine roundEnds_unexpected (.closes closing solid fun b here same => innermost ?_)
    exact beq_iff_eq.mpr (Bracket.eq_of_closing_eq single same ▸ here)

/-- A brace closes a brace, or a template goes on behind it. -/
theorem roundEnds_brace {f g : Unit → Parser (List Bracket)} (kind : s.token.kind = .punctuator)
    (closed : Bracket.closed? s.token.text = some .brace) :
    RoundEnds typesOnly stack s ((match (stack.dropWhile (· == Bracket.angle)).head? with
      | some .substitution => do
        reread Token.asTemplateContinuation
        match ← currentKind with
        | .template .middle => pure (stack.dropWhile (· == Bracket.angle))
        | .template .tail => pure ((stack.dropWhile (· == Bracket.angle)).drop 1)
        | _ => unexpected >>= f
      | some .brace => pure ((stack.dropWhile (· == Bracket.angle)).drop 1)
      | _ => unexpected >>= g) c s) := by
  obtain ⟨marks, closing, solid⟩ := marksOf_of_closed kind closed
  have blocks (other : ∀ b ∈ (stack.dropWhile (· == .angle)).head?, b.closing ≠ "\x7d") :
      Blocks typesOnly stack s.token := .closes closing solid other
  cases innermost : stack.dropWhile (· == .angle) with
  | nil => exact roundEnds_unexpected (blocks (by simp [innermost]))
  | cons a rest =>
      cases a with
      | substitution =>
          have again : ReadAs s.token s.token.asTemplateContinuation := .continuation closing
          dsimp only [List.head?_cons]
          rw [bind_ok (reread_apply _), bind_ok currentKind_apply]
          dsimp only
          rcases s.token.kind_asTemplateContinuation with ends | goesOn | invalid
          · rw [ends]
            exact ⟨_, rfl, again, .closes (by rw [marksOf, ends]) (absurd rfl) innermost⟩
          · rw [goesOn]
            exact ⟨_, rfl, again, .continues (by rw [marksOf, goesOn]) innermost⟩
          · rw [invalid]
            exact ⟨_, rfl, again, .ends (.inr invalid), rfl⟩
      | brace => exact ⟨_, rfl, .same _, .closes marks (fun _ => closing) innermost⟩
      | _ => exact roundEnds_unexpected (blocks (by simp [innermost, Bracket.closing]))

/-- Other marks close angles or are passed over. -/
theorem roundEnds_other {f : Unit → Parser (List Bracket)} (covers : s.token.Covers) (kind : s.token.kind = .punctuator)
    (unopened : Bracket.opened? s.token.text = none) (unclosed : Bracket.closed? s.token.text = none) :
    RoundEnds typesOnly stack s ((if (s.token.opensWithGreater && stack.head? == some .angle) = true
      then do
        reread Token.asGreater
        pure (stack.drop 1)
      else if (typesOnly && stack.head? == some .angle && !mayStandInTypeArguments s.token.text) = true
        then unexpected >>= f
        else pure stack) c s) := by
  obtain ⟨angles, unmarked⟩ := marksOf_of_other kind unopened unclosed
  by_cases greater : (s.token.opensWithGreater && stack.head? == some .angle) = true
  · rw [if_pos greater]
    obtain ⟨opens, angle⟩ := Bool.and_eq_true_iff.mp greater
    obtain ⟨rest, rfl⟩ := List.head?_eq_some_iff.mp (beq_iff_eq.mp angle)
    exact ⟨_, rfl, .greater opens, .closesAngle (Token.isPunctuator_asGreater covers opens) rfl⟩
  rw [if_neg greater]
  by_cases operator : (typesOnly && stack.head? == some .angle && !mayStandInTypeArguments s.token.text) = true
  · rw [if_pos operator]
    simp only [Bool.and_eq_true, beq_iff_eq, Bool.not_eq_true'] at operator
    exact roundEnds_unexpected (.denied operator.1.1 operator.1.2 kind operator.2)
  · rw [if_neg operator]
    refine ⟨_, rfl, .same _, .passes angles ?_⟩
    by_cases angle : stack.head? = some .angle
    · exact .inl (unmarked (by simpa [angle] using greater))
    · exact .inr angle

/-- Tokens are told apart by their kind, and marks by what they open and close. -/
theorem roundEnds_groupStep (typesOnly : Bool) (stack : List Bracket) (covers : s.token.Covers)
    (fresh : s.token.kind ≠ .template .middle ∧ s.token.kind ≠ .template .tail) :
    RoundEnds typesOnly stack s (groupStep typesOnly stack c s) := by
  unfold groupStep
  rw [bind_ok currentToken_apply]
  dsimp only
  cases kind : s.token.kind with
  | punctuator =>
      dsimp only
      cases opened : Bracket.opened? s.token.text with
      | some a => exact ⟨s.token, rfl, .same _, .opens (marksOf_of_opened kind opened)⟩
      | none =>
          dsimp only
          by_cases single : (s.token.text == ")" || s.token.text == "]") = true
          · rw [if_pos single]
            have closed : Bracket.closed? s.token.text =
                some (if (s.token.text == ")") = true then .paren else .square) := by
              rcases Bool.or_eq_true_iff.mp single with text | text
              · rw [beq_iff_eq.mp text]
                rfl
              · rw [beq_iff_eq.mp text]
                rfl
            exact roundEnds_closing kind closed (by split <;> decide)
          rw [if_neg single]
          by_cases brace : (s.token.text == "\x7d") = true
          · rw [if_pos brace]
            exact roundEnds_brace kind (beq_iff_eq.mp brace ▸ rfl)
          · rw [if_neg brace]
            refine roundEnds_other covers kind opened ?_
            unfold Bracket.closed?
            split
            all_goals simp_all
  | template part =>
      cases part with
      | head => exact ⟨s.token, rfl, .same _, .opens (by rw [marksOf, kind])⟩
      | full => exact ⟨s.token, rfl, .same _, .passes (by simp [marksOf, kind]) (.inl (by rw [marksOf, kind]))⟩
      | middle => exact absurd kind fresh.1
      | tail => exact absurd kind fresh.2
  | endOfText => exact ⟨s.token, rfl, .same _, .ends (.inl kind), rfl⟩
  | invalid => exact ⟨s.token, rfl, .same _, .ends (.inr kind), rfl⟩
  | _ => exact ⟨s.token, rfl, .same _, .passes (by simp [marksOf, kind]) (.inl (by rw [marksOf, kind]))⟩

/-! ### Whole groups -/

/-- From a current token on some tokens are read one after another, up to a last one. -/
inductive ReadsUpTo : Token → List Token → Token → Prop
  | last {t u : Token} (again : ReadAs t u) : ReadsUpTo t [] u
  | next {t u v : Token} {tokens : List Token} (again : ReadAs t u) (behind : ReadsUpTo u.following tokens v) :
      ReadsUpTo t (u :: tokens) v

/-- The state behind some tokens and a last one. -/
def State.past (s : State) (tokens : List Token) (last : Token) : State :=
  { s.counting (tokens ++ [last]) with previousEnd := last.last, token := last.following }

theorem State.bumped_eq_past (s : State) (t : Token) : ({ s with token := t } : State).bumped = s.past [] t := by
  simp only [bumped, behind, countQuotes_eq]
  rfl

theorem State.past_past (s : State) (t : Token) (tokens : List Token) (last : Token) :
    (s.past [] t).past tokens last = s.past (t :: tokens) last := by
  have counted := s.counting_append [t] (tokens ++ [last])
  simp only [past, List.nil_append, List.cons_append] at counted ⊢
  rw [counted]
  rfl

/-- One round of a group: a token is read, and the group is over when no bracket is left open. -/
def groupRound (typesOnly : Bool) (stack : List Bracket) : Parser (Sum (List Bracket) Unit) := do
  let stack ← groupStep typesOnly stack
  bump
  return if stack.isEmpty then .inr () else .inl stack

/-- How a group ends of which some marks have been read. -/
def GroupEnds (typesOnly : Bool) (b : Bracket) (marks : List Mark) (s : State) :
    EStateM.Result Failure State Unit → Prop
  | .ok () u => ∃ inside closer, u = s.past inside closer ∧ ReadsUpTo s.token inside closer ∧
      b.Encloses (marks ++ inside.flatMap marksOf) ∧ closer.isPunctuator b.closing = true
  | .error e _ => e.cause = .exhausted ∨ ∃ inside stop opened, e = ⟨stop.start, .unexpected (describe stop)⟩ ∧
      ReadsUpTo s.token inside stop ∧ LeavesOpen b (marks ++ inside.flatMap marksOf) opened ∧ Blocks typesOnly opened stop

/-- A group goes on from what has been read of it: the stack of the loop holds the brackets that are open. -/
theorem groupEnds_loop (typesOnly : Bool) (solid : b ≠ .substitution) (n : Nat) (leaves : LeavesOpen b marks stack)
    (covers : s.token.Covers) (fresh : s.token.kind ≠ .template .middle ∧ s.token.kind ≠ .template .tail) :
    GroupEnds typesOnly b marks s (loopUpTo (groupRound typesOnly) n stack c s) := by
  induction n generalizing stack marks s with
  | zero => exact .inl rfl
  | succ n ih =>
      have round := roundEnds_groupStep (c := c) typesOnly stack covers fresh
      rw [loopUpTo, bind_apply, groupRound, bind_apply]
      cases result : groupStep typesOnly stack c s with
      | error e u =>
          rw [result] at round
          obtain ⟨stop, -, again, blocks, rfl⟩ := round
          refine .inr ⟨[], stop, stack, rfl, .last again, ?_, blocks⟩
          rwa [List.flatMap_nil, List.append_nil]
      | ok rest u =>
          rw [result] at round
          obtain ⟨t, rfl, again, counts⟩ := round
          dsimp only
          rw [bind_ok bump_apply, pure_apply, State.bumped_eq_past]
          rcases leaves.counts counts solid with ⟨rfl, encloses, closing⟩ | leaves'
          · refine ⟨[], t, rfl, .last again, ?_, closing⟩
            rwa [List.flatMap_nil, List.append_nil]
          · -- The group goes on in the state behind the token, which is no piece of a template that goes on.
            have more : rest.isEmpty = false := by simpa using leaves'.ne_nil
            rw [more]
            have behind := ih (s := s.past [] t) leaves' (Token.covers_read _) (Token.kind_read_ne _)
            simp only [Bool.false_eq_true, if_false]
            cases ended : loopUpTo (groupRound typesOnly) n rest c (s.past [] t) with
            | ok a u =>
                rw [ended] at behind
                obtain ⟨inside, closer, rfl, reads, encloses, closing⟩ := behind
                rw [List.append_assoc] at encloses
                exact ⟨t :: inside, closer, s.past_past t inside closer, .next again reads, encloses, closing⟩
            | error e u =>
                rw [ended] at behind
                rcases behind with exhausted | ⟨inside, stop, opened, failed, reads, leaves, blocks⟩
                · exact .inl exhausted
                · rw [List.append_assoc] at leaves
                  exact .inr ⟨t :: inside, stop, opened, failed, .next again reads, leaves, blocks⟩

/-- A group in brackets is read as one. Behind an opening bracket either a group has been read, up to the mark that
closes the bracket: what is read in between nests, within other brackets than angles without regard to these. Or the
parser fails at a token behind which no such group goes on: the text ends there, another bracket is closed than the
one that is open, or an operator stands where there are to be types alone. -/
theorem balanced_reads_one_group {origin : Cursor} (typesOnly : Bool) (valid : s.Valid origin)
    (bound : s.left + 2 ≤ c.bound) (punctuator : s.token.kind = .punctuator)
    (opens : Bracket.opened? s.token.text = some b) :
    (∃ inside closer, balanced typesOnly c s = .ok () (s.past (s.token :: inside) closer) ∧
      ReadsUpTo s.token.following inside closer ∧ b.Encloses (inside.flatMap marksOf) ∧
      closer.isPunctuator b.closing = true) ∨
    ∃ inside stop opened u, balanced typesOnly c s = .error ⟨stop.start, .unexpected (describe stop)⟩ u ∧
      ReadsUpTo s.token.following inside stop ∧ LeavesOpen b (inside.flatMap marksOf) opened ∧
      Blocks typesOnly opened stop := by
  have solid : b ≠ .substitution := by
    rintro rfl
    unfold Bracket.opened? at opens
    split at opens
    all_goals cases opens
  obtain ⟨n, rounds⟩ : ∃ n, c.bound = n + 1 := ⟨c.bound - 1, by omega⟩
  have first : groupStep typesOnly [] c s = .ok [b] s := by
    unfold groupStep
    rw [bind_ok currentToken_apply]
    dsimp only
    rw [punctuator]
    dsimp only
    rw [opens]
    rfl
  have read : balanced typesOnly c s = loopUpTo (groupRound typesOnly) n [b] c (s.past [] s.token) := by
    rw [← s.bumped_eq_past]
    change loop [] (groupRound typesOnly) c s = _
    rw [loop_apply, rounds, loopUpTo, bind_apply, groupRound, bind_ok first, bind_ok bump_apply]
    rfl
  have group := groupEnds_loop (c := c) (s := s.past [] s.token) typesOnly solid n
    (.within (Bracket.encloses_nil b)) (Token.covers_read _) (Token.kind_read_ne _)
  have room : Room (16 * s.left + 16) 16 s := ⟨Nat.le_refl _, fun _ => rfl⟩
  have ends := (inferInstance : Serves _ 16 (balanced typesOnly)).halts.ends origin c s valid bound room
  rw [← read] at group
  cases result : balanced typesOnly c s with
  | ok a u =>
      rw [result] at group
      obtain ⟨inside, closer, rfl, reads, encloses, closing⟩ := group
      exact .inl ⟨inside, closer, by rw [s.past_past], reads, encloses, closing⟩
  | error e u =>
      rw [result] at group ends
      rcases group with exhausted | ⟨inside, stop, opened, rfl, reads, leaves, blocks⟩
      · exact absurd exhausted ends.cause
      · exact .inr ⟨inside, stop, opened, u, rfl, reads, leaves, blocks⟩

/-- Type arguments with a comparison in braces and with a template. -/
def argumentsSource : String :=
  "<A, \x7b b: (c < d) \x7d, E<`$\x7bf\x7d`>>= g"

/-- A square bracket is open where a round one is closed. -/
def crossedSource : String :=
  "(a < [b) > c])"

set_option maxRecDepth 100000 in
/-- The angles are closed by the first two characters of a longer mark, the braces by a brace although an angle is open
there. Brackets that cross end in a failure. -/
theorem balanced_reads_type_arguments :
    (∃ inside closer,
      let s := initialState argumentsSource.toList
      balanced true ⟨.typed, 40⟩ s = .ok () (s.past (s.token :: inside) closer) ∧
        ReadsUpTo s.token.following inside closer ∧ NestedInAngles (inside.flatMap marksOf) ∧
        closer.isPunctuator ">" = true ∧ closer.following.text = "=") ∧
    ∃ inside stop opened u,
      let s := initialState crossedSource.toList
      balanced false ⟨.typed, 40⟩ s = .error ⟨stop.start, .unexpected (describe stop)⟩ u ∧ stop.start = 7 ∧
        ReadsUpTo s.token.following inside stop ∧ LeavesOpen .paren (inside.flatMap marksOf) opened ∧
        Blocks false opened stop := by
  constructor
  · have group := balanced_reads_one_group (c := ⟨.typed, 40⟩) (b := .angle) true
      (valid_initialState argumentsSource.toList) (by decide) (by decide +kernel) (by decide +kernel)
    have ends : (match balanced true ⟨.typed, 40⟩ (initialState argumentsSource.toList) with
      | .ok _ u => u.token.text == "="
      | .error _ _ => false) = true := by decide +kernel
    rcases group with ⟨inside, closer, done, reads, encloses, closing⟩ | ⟨_, _, _, _, failed, _⟩
    · rw [done] at ends
      exact ⟨inside, closer, done, reads, encloses, closing, beq_iff_eq.mp ends⟩
    · rw [failed] at ends
      cases ends
  · have group := balanced_reads_one_group (c := ⟨.typed, 40⟩) (b := .paren) false
      (valid_initialState crossedSource.toList) (by decide) (by decide +kernel) (by decide +kernel)
    have ends : (match balanced false ⟨.typed, 40⟩ (initialState crossedSource.toList) with
      | .ok _ _ => false
      | .error e _ => e.offset == 7) = true := by decide +kernel
    rcases group with ⟨_, _, done, _⟩ | ⟨inside, stop, opened, u, failed, reads, leaves, blocks⟩
    · rw [done] at ends
      cases ends
    · rw [failed] at ends
      exact ⟨inside, stop, opened, u, failed, beq_iff_eq.mp ends, reads, leaves, blocks⟩

end BindingRepair.Script.Grammar
