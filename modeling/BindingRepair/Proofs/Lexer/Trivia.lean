/-
# What is skipped in front of a token

In front of a token stand blanks and comments, and where the text begins also a line that a hash and an
exclamation mark open. A comment in brackets that is never closed reaches to the end of the text. Without one, a
line ends before the token if and only if one ends in what is skipped. Conversely, what is made of blanks and complete
comments is skipped, whatever word stands behind it.
-/

import BindingRepair.Proofs.Lexer.Reach
import Mathlib.Data.List.Infix

namespace BindingRepair.Script

open Text Cursor

/-- White space, what ends a line, and the mark of the order of bytes. -/
def isGapChar (c : Char) : Bool :=
  isLineTerminator c || Unicode.isBlank c || c == '\ufeff'

/-- The text ends here, or the line does. -/
def EndsLine (rest : List Char) : Prop :=
  ∀ c ∈ rest.head?, isLineTerminator c = true

theorem EndsLine.nil : EndsLine [] := by
  intro c here
  cases here

/-- The characters hold no end of a comment in brackets. -/
def IsUnclosed (body : List Char) : Prop :=
  ¬ ['*', '/'] <:+: body

/-- What may stand in front of `rest`: blanks and complete comments. The gap is not closed if it ends in a comment
that reaches to the end of the text. -/
inductive IsGap (rest : List Char) : (closed : Bool) → List Char → Prop
  | nil : IsGap rest true []
  | blank {closed : Bool} {c : Char} {gap : List Char} (blank : isGapChar c = true) (later : IsGap rest closed gap) :
    IsGap rest closed (c :: gap)
  | lineComment {closed : Bool} {body gap : List Char} (inLine : ∀ c ∈ body, isLineTerminator c = false)
    (ends : EndsLine (gap ++ rest)) (later : IsGap rest closed gap) : IsGap rest closed ('/' :: '/' :: (body ++ gap))
  | blockComment {closed : Bool} {body gap : List Char} (unclosed : IsUnclosed body) (later : IsGap rest closed gap) :
    IsGap rest closed ('/' :: '*' :: (body ++ '*' :: '/' :: gap))
  | openComment {body : List Char} (unclosed : IsUnclosed body) (ends : rest = []) :
    IsGap rest false ('/' :: '*' :: body)

/-- What is skipped in front of `rest` at an offset: a gap, where the text begins perhaps behind a line of its own. -/
inductive IsSkipped (offset : Nat) (rest : List Char) (closed : Bool) : List Char → Prop
  | gap {gap : List Char} (between : IsGap rest closed gap) : IsSkipped offset rest closed gap
  | hashbang {line gap : List Char} (begins : offset = 0) (inLine : ∀ c ∈ line, isLineTerminator c = false)
    (ends : EndsLine (gap ++ rest)) (between : IsGap rest closed gap) :
    IsSkipped offset rest closed ('#' :: '!' :: (line ++ gap))

theorem IsGap.rest_eq_nil {rest gap : List Char} {closed : Bool} (between : IsGap rest closed gap)
    (reaches : closed = false) : rest = [] := by
  induction between with
  | nil => cases reaches
  | blank _ _ ih => exact ih reaches
  | lineComment _ _ _ ih => exact ih reaches
  | blockComment _ _ ih => exact ih reaches
  | openComment _ ends => exact ends

/-- Only a gap at the end of the text is not closed. -/
theorem IsSkipped.rest_eq_nil {offset : Nat} {rest lead : List Char} (skipped : IsSkipped offset rest false lead) :
    rest = [] := by
  cases skipped with
  | gap between => exact between.rest_eq_nil rfl
  | hashbang _ _ _ between => exact between.rest_eq_nil rfl

/-! ### Skipping -/

/-- What is skipped in front of `rest` from within blanks or from within a comment on. -/
def Trivia.Skips (rest : List Char) (closed : Bool) : Trivia → List Char → Prop
  | .blanks, skipped => IsGap rest closed skipped
  | .lineComment, skipped => ∃ body gap, skipped = body ++ gap ∧ (∀ c ∈ body, isLineTerminator c = false) ∧
    EndsLine (gap ++ rest) ∧ IsGap rest closed gap
  | .blockComment _, skipped =>
    (∃ body gap, skipped = body ++ '*' :: '/' :: gap ∧ IsUnclosed body ∧ IsGap rest closed gap) ∨
      closed = false ∧ rest = [] ∧ IsUnclosed skipped

/-- Whether a line has ended, in the comment that is being skipped or before. -/
def Trivia.known (newline : Bool) : Trivia → Bool
  | .blanks | .lineComment => newline
  | .blockComment inner => newline || inner

/-- A reader that knows whether a line has ended gets over some characters. If these are closed, it knows of the lines
that end in them as well. -/
structure Crosses (place : Cursor) (known : Bool) (found : Bool × Cursor) (closed : Bool) (skipped : List Char) :
    Prop where
  rest : place.rest = skipped ++ found.2.rest
  offset : found.2.offset = place.offset + byteLength skipped
  newline : closed = true → found.1 = (known || skipped.any isLineTerminator)

namespace Crosses

variable {known closed : Bool} {offset : Nat} {cs : List Char} {found : Bool × Cursor} {skipped : List Char}

theorem nil (place : Cursor) (known closed : Bool) : Crosses place known (known, place) closed [] where
  rest := rfl
  offset := rfl
  newline _ := (Bool.or_false known).symm

/-- A further character stands in front. -/
theorem cons {c : Char}
    (crosses : Crosses ⟨offset + c.utf8Size, cs⟩ (known || isLineTerminator c) found closed skipped) :
    Crosses ⟨offset, c :: cs⟩ known found closed (c :: skipped) where
  rest := congrArg (c :: ·) crosses.rest
  offset := by rw [crosses.offset, byteLength, Nat.add_assoc]
  newline all := by rw [crosses.newline all, List.any_cons, Bool.or_assoc]

/-- A further character stands in front that does not end a line. -/
theorem cons_of_not {c : Char} (other : isLineTerminator c = false)
    (crosses : Crosses ⟨offset + c.utf8Size, cs⟩ known found closed skipped) :
    Crosses ⟨offset, c :: cs⟩ known found closed (c :: skipped) :=
  cons (by rwa [other, Bool.or_false])

end Crosses

theorem IsUnclosed.nil : IsUnclosed [] := by
  simp [IsUnclosed]

theorem IsUnclosed.cons {c : Char} {body : List Char} (unclosed : IsUnclosed body)
    (other : ¬ ['*', '/'] <+: c :: body) : IsUnclosed (c :: body) :=
  fun closes => (List.infix_cons_iff.mp closes).elim other unclosed

/-- What is skipped consists of blanks and comments, and the lines that end in it are noticed. -/
theorem exists_skipped (mode : Trivia) (newline : Bool) (offset : Nat) (cs : List Char) : ∃ closed skipped,
    mode.Skips (triviaEnd mode newline offset cs).2.rest closed skipped ∧
      Crosses ⟨offset, cs⟩ (mode.known newline) (triviaEnd mode newline offset cs) closed skipped := by
  fun_induction triviaEnd mode newline offset cs with
  | case1 mode newline offset =>
      cases mode with
      | blanks => exact ⟨true, [], .nil, .nil _ _ _⟩
      | lineComment =>
          exact ⟨true, [], ⟨[], [], rfl, fun _ none => absurd none List.not_mem_nil, .nil, .nil⟩, .nil _ _ _⟩
      | blockComment inner => exact ⟨false, [], .inr ⟨rfl, rfl, .nil⟩, rfl, rfl, fun all => by cases all⟩
  | case2 newline offset cs ih =>
      obtain ⟨closed, _, ⟨body, gap, rfl, inLine, ends, later⟩, crosses⟩ := ih
      exact ⟨closed, _, .lineComment inLine ends later, .cons_of_not (by decide) (.cons_of_not (by decide) crosses)⟩
  | case3 newline offset cs ih =>
      obtain ⟨closed, skipped, skips, crosses⟩ := ih
      rw [Trivia.known, Bool.or_false] at crosses
      have behind : Crosses ⟨offset, '/' :: '*' :: cs⟩ newline _ closed ('/' :: '*' :: skipped) :=
        .cons_of_not (by decide) (.cons_of_not (by decide) crosses)
      rcases skips with ⟨body, gap, rfl, unclosed, later⟩ | ⟨rfl, ends, unclosed⟩
      · exact ⟨closed, _, .blockComment unclosed later, behind⟩
      · exact ⟨false, _, .openComment unclosed ends, behind⟩
  | case4 newline offset c cs _ _ terminates ih =>
      obtain ⟨closed, gap, skips, crosses⟩ := ih
      have blank : isGapChar c = true := by rw [isGapChar, terminates]; rfl
      exact ⟨closed, _, .blank blank skips, .cons (by rwa [terminates, Bool.or_true])⟩
  | case5 newline offset c cs _ _ inLine blank ih =>
      obtain ⟨closed, gap, skips, crosses⟩ := ih
      have other := Bool.eq_false_iff.mpr inLine
      have blank : isGapChar c = true := by rw [isGapChar, other]; exact blank
      exact ⟨closed, _, .blank blank skips, .cons_of_not other crosses⟩
  | case6 newline offset c cs => exact ⟨true, [], .nil, .nil _ _ _⟩
  | case7 newline offset c cs terminates ih =>
      obtain ⟨closed, gap, skips, crosses⟩ := ih
      have blank : isGapChar c = true := by rw [isGapChar, terminates]; rfl
      refine ⟨closed, _, ⟨[], c :: gap, rfl, fun _ none => absurd none List.not_mem_nil, ?_, .blank blank skips⟩,
        .cons (by rwa [Trivia.known, terminates, Bool.or_true])⟩
      rintro d here
      exact Option.some.inj here ▸ terminates
  | case8 newline offset c cs inLine ih =>
      obtain ⟨closed, _, ⟨body, gap, rfl, others, ends, later⟩, crosses⟩ := ih
      have other := Bool.eq_false_iff.mpr inLine
      exact ⟨closed, _, ⟨c :: body, gap, rfl, List.forall_mem_cons.mpr ⟨other, others⟩, ends, later⟩,
        .cons_of_not other crosses⟩
  | case9 inner newline offset cs ih =>
      obtain ⟨closed, gap, skips, crosses⟩ := ih
      exact ⟨closed, _, .inl ⟨[], gap, rfl, .nil, skips⟩, .cons_of_not (by decide) (.cons_of_not (by decide) crosses)⟩
  | case10 inner newline offset c cs open' ih =>
      obtain ⟨closed, skipped, skips, crosses⟩ := ih
      have behind : Crosses ⟨offset, c :: cs⟩ (newline || inner) _ closed (c :: skipped) :=
        .cons (by rwa [Bool.or_assoc])
      -- The reader would have left the comment if it were closed here.
      have notHere : ¬ ['*', '/'] <+: c :: skipped := by
        rintro ⟨more, parts⟩
        obtain ⟨rfl, rfl⟩ := List.cons.inj parts
        exact open' _ rfl crosses.rest
      rcases skips with ⟨body, gap, rfl, unclosed, later⟩ | ⟨rfl, ends, unclosed⟩
      · refine ⟨closed, _, .inl ⟨c :: body, gap, rfl, unclosed.cons fun closes => notHere ?_, later⟩, behind⟩
        exact closes.trans (List.prefix_append (c :: body) _)
      · exact ⟨false, _, .inr ⟨rfl, ends, unclosed.cons notHere⟩, behind⟩

/-- In front of a token blanks and comments are skipped, and where the text begins a line that is opened by a hash and an
exclamation mark. -/
theorem exists_isSkipped (place : Cursor) : ∃ closed skipped,
    IsSkipped place.offset (skipTrivia place).2.rest closed skipped ∧
      Crosses place false (skipTrivia place) closed skipped := by
  obtain ⟨offset, rest⟩ := place
  unfold skipTrivia
  split
  · rename_i opens
    obtain ⟨begins, mark⟩ := Bool.and_eq_true_iff.mp opens
    obtain ⟨cs, rfl⟩ := List.isPrefixOf_iff_prefix.mp mark
    obtain ⟨closed, _, ⟨line, gap, rfl, inLine, ends, between⟩, crosses⟩ :=
      exists_skipped .lineComment false (offset + 2) cs
    exact ⟨closed, _, .hashbang (beq_iff_eq.mp begins) inLine ends between,
      .cons_of_not (by decide) (.cons_of_not (by decide) crosses)⟩
  · obtain ⟨closed, gap, between, crosses⟩ := exists_skipped .blanks false offset rest
    exact ⟨closed, gap, .gap between, crosses⟩

/-! ### Beginnings of tokens -/

/-- Neither a gap nor a comment begins with the text. -/
def StopsTrivia (rest : List Char) : Prop :=
  ∀ newline offset, triviaEnd .blanks newline offset rest = (newline, ⟨offset, rest⟩)

/-- What is skipped goes on up to what is none. -/
theorem stopsTrivia_triviaEnd (mode : Trivia) (newline : Bool) (offset : Nat) (cs : List Char) :
    StopsTrivia (triviaEnd mode newline offset cs).2.rest := by
  fun_induction triviaEnd mode newline offset cs with
  | case1 =>
      intro newline offset
      rfl
  | case6 newline offset c cs noLine noBlock inLine visible =>
      intro newline offset
      rw [triviaEnd_blanks_cons noLine noBlock, if_neg inLine, if_neg visible]
  | case2 _ _ _ ih | case3 _ _ _ ih => exact ih
  | case4 _ _ _ _ _ _ _ ih => exact ih
  | case5 _ _ _ _ _ _ _ _ ih => exact ih
  | case7 _ _ _ _ _ ih | case8 _ _ _ _ _ ih => exact ih
  | case9 _ _ _ _ ih => exact ih
  | case10 _ _ _ _ _ _ ih => exact ih

theorem stopsTrivia_skipTrivia (place : Cursor) : StopsTrivia (skipTrivia place).2.rest := by
  unfold skipTrivia
  split
  · exact stopsTrivia_triviaEnd _ _ _ _
  · exact stopsTrivia_triviaEnd _ _ _ _

/-- Where something is skipped no token begins. -/
theorem not_stopsTrivia {c : Char} {cs later : List Char} {mode : Trivia} {newline newline' : Bool}
    {offset offset' : Nat} (skips : triviaEnd .blanks newline offset (c :: cs) = triviaEnd mode newline' offset' later)
    (further : later.length ≤ cs.length) : ¬StopsTrivia (c :: cs) := by
  intro stops
  have stays := (stops newline offset).symm.trans skips
  have shorter := (reaches_triviaEnd mode newline' offset' later).length_le
  rw [← stays] at shorter
  exact Nat.not_succ_le_self _ (shorter.trans further)

/-- A token begins with no blank, and with no two characters that open a comment. -/
theorem stopsTrivia_cons_iff {c : Char} {cs : List Char} : StopsTrivia (c :: cs) ↔
    isGapChar c = false ∧ ¬ (c = '/' ∧ (cs.head? = some '/' ∨ cs.head? = some '*')) := by
  by_cases comment : c = '/' ∧ (cs.head? = some '/' ∨ cs.head? = some '*')
  · obtain ⟨rfl, opens⟩ := comment
    refine iff_of_false ?_ (by simp [opens])
    obtain ⟨more, rfl⟩ | ⟨more, rfl⟩ : (∃ more, cs = '/' :: more) ∨ ∃ more, cs = '*' :: more :=
      opens.imp List.head?_eq_some_iff.mp List.head?_eq_some_iff.mp
    · exact not_stopsTrivia (triviaEnd_opensLine false 0 more) (Nat.le_succ _)
    · exact not_stopsTrivia (triviaEnd_opensBlock false 0 more) (Nat.le_succ _)
  · have noLine : ∀ more, c = '/' → cs = '/' :: more → False := by
      rintro more rfl rfl
      exact comment ⟨rfl, .inl rfl⟩
    have noBlock : ∀ more, c = '/' → cs = '*' :: more → False := by
      rintro more rfl rfl
      exact comment ⟨rfl, .inr rfl⟩
    have skip := triviaEnd_blanks_cons noLine noBlock
    have visible_iff : isGapChar c = false ↔
        ¬isLineTerminator c = true ∧ ¬(Unicode.isBlank c || c == '\ufeff') = true := by
      rw [isGapChar, Bool.or_assoc, Bool.or_eq_false_iff, Bool.not_eq_true, Bool.not_eq_true]
    rw [and_iff_left comment, visible_iff]
    constructor
    · intro stops
      refine ⟨fun terminates => ?_, fun blank => ?_⟩
      · exact not_stopsTrivia ((skip false 0).trans (if_pos terminates)) (Nat.le_refl _) stops
      · by_cases terminates : isLineTerminator c = true
        · exact not_stopsTrivia ((skip false 0).trans (if_pos terminates)) (Nat.le_refl _) stops
        · exact not_stopsTrivia ((skip false 0).trans ((if_neg terminates).trans (if_pos blank))) (Nat.le_refl _) stops
    · rintro ⟨inLine, visible⟩ newline offset
      rw [skip, if_neg inLine, if_neg visible]
theorem isGapChar_head_skipTrivia (place : Cursor) : ∀ c ∈ (skipTrivia place).2.rest.head?, isGapChar c = false := by
  intro c here
  have stops := stopsTrivia_skipTrivia place
  obtain ⟨cs, rest⟩ := List.head?_eq_some_iff.mp here
  rw [rest] at stops
  exact (stopsTrivia_cons_iff.mp stops).1

theorem splits_skipTrivia {origin place : Cursor} (reaches : origin.Reaches place) :
    origin.Splits (skipTrivia place).2 :=
  (reaches.trans (reaches_skipTrivia place)).splits fun feed =>
    absurd (isGapChar_head_skipTrivia place _ feed) (by decide)

/-! ### Gaps are skipped -/

variable {gap body rest rest' cs : List Char}

/-- Where a line ends, it makes no difference whether it ends in a comment. -/
theorem triviaEnd_lineComment_of_endsLine (ends : EndsLine cs) (newline : Bool) (offset : Nat) :
    triviaEnd .lineComment newline offset cs = triviaEnd .blanks newline offset cs := by
  cases cs with
  | nil => rfl
  | cons c cs =>
      have terminates : isLineTerminator c = true := ends c rfl
      have noSlash : c ≠ '/' := by
        rintro rfl
        exact absurd terminates (by decide)
      rw [triviaEnd_lineComment_cons, if_pos terminates, triviaEnd_blanks_cons (fun _ slash => absurd slash noSlash)
        fun _ slash => absurd slash noSlash, if_pos terminates]

/-- A comment on a line is skipped to the end of the line. -/
theorem triviaEnd_lineComment (inLine : ∀ c ∈ body, isLineTerminator c = false) (ends : EndsLine cs)
    (newline : Bool) (offset : Nat) : triviaEnd .lineComment newline offset (body ++ cs) =
      triviaEnd .blanks newline (offset + byteLength body) cs := by
  induction body generalizing offset with
  | nil => exact triviaEnd_lineComment_of_endsLine ends newline offset
  | cons c body ih =>
      obtain ⟨other, others⟩ := List.forall_mem_cons.mp inLine
      rw [List.cons_append, triviaEnd_lineComment_cons, if_neg (Bool.eq_false_iff.mp other), ih others, byteLength,
        Nat.add_assoc]

/-- A comment in brackets is skipped to its end, and the lines that end in it are noticed. -/
theorem triviaEnd_blockComment (unclosed : IsUnclosed body) (inner newline : Bool) (offset : Nat) (cs : List Char) :
    triviaEnd (.blockComment inner) newline offset (body ++ '*' :: '/' :: cs) =
      triviaEnd .blanks (newline || (inner || body.any isLineTerminator)) (offset + (byteLength body + 2)) cs := by
  induction body generalizing inner offset with
  | nil =>
      rw [List.any_nil, Bool.or_false]
      rfl
  | cons c body ih =>
      have later : IsUnclosed body := fun closes => unclosed (List.infix_cons closes)
      have goesOn : ∀ more, c = '*' → body ++ '*' :: '/' :: cs = '/' :: more → False := by
        rintro more rfl closes
        cases body with
        | nil => cases closes
        | cons d body =>
            obtain ⟨rfl, -⟩ := List.cons.inj closes
            exact unclosed ⟨[], body, rfl⟩
      rw [List.cons_append, triviaEnd_blockComment_cons goesOn, ih later, List.any_cons, byteLength, Bool.or_assoc,
        Nat.add_assoc, ← Nat.add_assoc c.utf8Size]

/-- A gap is skipped up to what is none, and the lines that end in it are noticed. -/
theorem IsGap.triviaEnd_eq {closed : Bool} (between : IsGap rest closed gap) (complete : closed = true)
    (stops : StopsTrivia rest) (newline : Bool) (offset : Nat) : triviaEnd .blanks newline offset (gap ++ rest) =
      (newline || gap.any isLineTerminator, ⟨offset + byteLength gap, rest⟩) := by
  induction between generalizing newline offset with
  | nil =>
      rw [List.nil_append, stops, List.any_nil, Bool.or_false]
      rfl
  | @blank _ c gap blank later ih =>
      have noSlash : c ≠ '/' := by
        rintro rfl
        exact absurd blank (by decide)
      have skipped : triviaEnd .blanks newline offset (c :: (gap ++ rest)) =
          triviaEnd .blanks (newline || isLineTerminator c) (offset + c.utf8Size) (gap ++ rest) := by
        rw [isGapChar, Bool.or_assoc, Bool.or_eq_true] at blank
        rw [triviaEnd_blanks_cons (fun _ slash => absurd slash noSlash) fun _ slash => absurd slash noSlash]
        cases terminates : isLineTerminator c with
        | true => simp
        | false => simp [blank.resolve_left (by simp [terminates])]
      rw [List.cons_append, skipped, ih complete, List.any_cons, byteLength, Bool.or_assoc, Nat.add_assoc]
  | @lineComment _ body gap inLine ends later ih =>
      have none : body.any isLineTerminator = false := by simpa using inLine
      have slash : isLineTerminator '/' = false := by decide
      have size : byteLength ('/' :: '/' :: (body ++ gap)) = 2 + byteLength body + byteLength gap := by
        rw [Nat.add_assoc, ← byteLength_append]
        exact (Nat.add_assoc 1 1 _).symm
      rw [List.cons_append, List.cons_append, List.append_assoc, triviaEnd_opensLine,
        triviaEnd_lineComment inLine ends, ih complete, size]
      simp only [List.any_cons, List.any_append, none, slash, Bool.false_or, Nat.add_assoc]
  | @blockComment _ body gap unclosed later ih =>
      have marks : isLineTerminator '/' = false ∧ isLineTerminator '*' = false := by decide
      have size : byteLength ('/' :: '*' :: (body ++ '*' :: '/' :: gap)) = 2 + (byteLength body + 2) + byteLength gap := by
        simp only [byteLength, byteLength_append]
        have ascii : '/'.utf8Size = 1 ∧ '*'.utf8Size = 1 := ⟨rfl, rfl⟩
        omega
      have parts : '/' :: '*' :: (body ++ '*' :: '/' :: gap) ++ rest =
          '/' :: '*' :: (body ++ '*' :: '/' :: (gap ++ rest)) := by simp
      rw [parts, triviaEnd_opensBlock, triviaEnd_blockComment unclosed, ih complete, size]
      simp only [List.any_cons, List.any_append, marks, Bool.false_or, Bool.or_assoc, Nat.add_assoc]
  | openComment => cases complete

/-- A line goes on as it does. -/
theorem EndsLine.append_congr (ends : EndsLine (gap ++ rest)) (goesOn : ¬EndsLine rest) (rest' : List Char) :
    EndsLine (gap ++ rest') := by
  cases gap with
  | nil => exact absurd ends goesOn
  | cons c gap => exact ends

/-- What is a gap in front of a text that does not end the line is one in front of any other. -/
theorem IsGap.congr (between : IsGap rest true gap) (goesOn : ¬EndsLine rest) (rest' : List Char) :
    IsGap rest' true gap := by
  generalize closes : true = closed at between
  induction between with
  | nil => exact .nil
  | blank blank later ih => exact .blank blank (ih closes)
  | lineComment inLine ends later ih => exact .lineComment inLine (ends.append_congr goesOn rest') (ih closes)
  | blockComment unclosed later ih => exact .blockComment unclosed (ih closes)
  | openComment => cases closes

theorem IsSkipped.congr {offset : Nat} (skipped : IsSkipped offset rest true gap) (goesOn : ¬EndsLine rest)
    (rest' : List Char) : IsSkipped offset rest' true gap := by
  cases skipped with
  | gap between => exact .gap (between.congr goesOn rest')
  | hashbang begins inLine ends between =>
      exact .hashbang begins inLine (ends.append_congr goesOn rest') (between.congr goesOn rest')

/-- A gap does not begin with the mark of a line that is skipped only where the text begins. -/
theorem IsGap.not_hashbang {closed : Bool} (between : IsGap rest closed gap)
    (noMark : gap = [] → ¬ ['#', '!'] <+: rest) : ¬ ['#', '!'] <+: gap ++ rest := by
  have other {c : Char} (opens : c ≠ '#') (cs : List Char) : ¬ ['#', '!'] <+: c :: cs := by
    rintro ⟨more, parts⟩
    exact opens (List.cons.inj parts).1.symm
  cases between with
  | nil => exact noMark rfl
  | blank blank _ =>
      refine other ?_ _
      rintro rfl
      exact absurd blank (by decide)
  | lineComment => exact other (by decide) _
  | blockComment => exact other (by decide) _
  | openComment => exact other (by decide) _

theorem IsSkipped.skipTrivia_eq {offset : Nat} (skipped : IsSkipped offset rest true gap) (stops : StopsTrivia rest)
    (noMark : offset = 0 → gap = [] → ¬ ['#', '!'] <+: rest) :
    skipTrivia ⟨offset, gap ++ rest⟩ = (gap.any isLineTerminator, ⟨offset + byteLength gap, rest⟩) := by
  unfold skipTrivia
  cases skipped with
  | gap between =>
      have unmarked : (offset == 0 && startsWith ⟨offset, gap ++ rest⟩ "#!") = false := by
        refine Bool.eq_false_iff.mpr fun mark => ?_
        obtain ⟨begins, mark⟩ := Bool.and_eq_true_iff.mp mark
        exact between.not_hashbang (noMark (beq_iff_eq.mp begins)) (List.isPrefixOf_iff_prefix.mp mark)
      rw [unmarked, if_neg Bool.false_ne_true, between.triviaEnd_eq rfl stops, Bool.false_or]
  | @hashbang line gap begins inLine ends between =>
      have opens : (offset == 0 && startsWith ⟨offset, '#' :: '!' :: (line ++ gap) ++ rest⟩ "#!") = true := by
        simp [begins, startsWith, List.isPrefixOf]
      have none : ('#' :: '!' :: line).any isLineTerminator = false := by
        have marks : isLineTerminator '#' = false ∧ isLineTerminator '!' = false := by decide
        simpa [marks] using inLine
      have inFirst : ∀ c ∈ '#' :: '!' :: line, isLineTerminator c = false := by simpa using none
      rw [if_pos opens, ← List.cons_append, ← List.cons_append, List.append_assoc, triviaEnd_lineComment inFirst ends,
        between.triviaEnd_eq rfl stops, List.any_append, none, byteLength_append, Nat.add_assoc]

/-- In front of another text that begins a token on the line the same is skipped. -/
theorem skipTrivia_congr {offset : Nat} (reaches : (skipTrivia ⟨offset, gap ++ rest⟩).2.rest = rest)
    (goesOn : ¬EndsLine rest) (stops : StopsTrivia rest')
    (noMark : offset = 0 → gap = [] → ¬ ['#', '!'] <+: rest') :
    skipTrivia ⟨offset, gap ++ rest'⟩ =
      ((skipTrivia ⟨offset, gap ++ rest⟩).1, ⟨offset + byteLength gap, rest'⟩) := by
  obtain ⟨closed, skipped, is, crosses⟩ := exists_isSkipped ⟨offset, gap ++ rest⟩
  rw [reaches] at is
  obtain rfl : gap = skipped := List.append_cancel_right (crosses.rest.trans (congrArg (skipped ++ ·) reaches))
  cases closed with
  | false => exact absurd (is.rest_eq_nil ▸ EndsLine.nil) goesOn
  | true => rw [(is.congr goesOn rest').skipTrivia_eq stops noMark, crosses.newline rfl, Bool.false_or]

end BindingRepair.Script
