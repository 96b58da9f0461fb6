/-
# Reading renamed bindings back

The words that stand in the text for a renamed binding are read as a binding of the new name. A property that was key
and binding at once keeps its key, and what an import gave no other name is still imported under the name of its export.
-/

import BindingRepair.Proofs.Grammar.Inserted

namespace BindingRepair.Script

open Text

/-- The words of a renamed binding in front of its new name. -/
def keptWords (site : BindingSite) (oldName : String) : Phrase :=
  if site.shorthand then [([], .name oldName), ([], .mark ':')]
  else if site.unaliased then [([], .name oldName), ([' '], .name "as")]
  else []

/-- What stands before the new name of a binding: a blank where something of the old one is kept. -/
def renamedGap (site : BindingSite) : List Char :=
  if site.shorthand || site.unaliased then [' '] else []

/-- The words of a renamed binding. -/
def renamedWords (site : BindingSite) (oldName name : String) : Phrase :=
  keptWords site oldName ++ [(renamedGap site, .name name)]

namespace Grammar

variable {c : Context} {s t : State} {stop : Cursor} {name : String}

/-- The parser has bound a name and stands at a place. -/
structure State.HasBound (s t : State) (name : String) (site : BindingSite) (stop : Cursor) : Prop where
  adds : s.Adds t [(.identifier { name, role := .binding { site with exported := site.exported || s.exporting } },
    s.opened.head?)]
  token : t.token = Token.read stop
  previousEnd : t.previousEnd = stop

/-- What is read before a name is bound adds nothing. -/
theorem State.HasBound.after {u : State} {site : BindingSite} (read : s.Adds u [])
    (binds : u.HasBound t name site stop) : s.HasBound t name site stop where
  adds := by
    have all := read.trans binds.adds
    rw [read.exporting, read.opened] at all
    exact all
  token := binds.token
  previousEnd := binds.previousEnd

/-- The name of the current token may be bound before it is read. -/
theorem State.hasBound_bumped (named : identifierName s.token = name) (last : s.token.last = stop)
    (site : BindingSite) : s.HasBound (s.bind s.token site).bumped name site stop where
  adds := {
    outline := by rw [outline_bumped, outline_bind, named]
    opened := opened_bumped _
    scope := scope_bumped _
    depth := depth_bumped _
    exporting := exporting_bumped _ }
  token := (State.token_bumped _).trans (congrArg Token.read last)
  previousEnd := (State.previousEnd_bumped _).trans last

/-- The name of the current token may be bound after it is read. -/
theorem State.hasBound_bind (named : identifierName s.token = name) (last : s.token.last = stop) (site : BindingSite) :
    s.HasBound (s.bumped.bind s.token site) name site stop where
  adds := {
    outline := by rw [outline_bind, outline_bumped, named, opened_bumped, exporting_bumped]
    opened := s.opened_bumped
    scope := s.scope_bumped
    depth := s.depth_bumped
    exporting := s.exporting_bumped }
  token := s.token_bumped.trans (congrArg Token.read last)
  previousEnd := s.previousEnd_bumped.trans last

/-- A name is a target. -/
theorem target_name {n : Nat} {kind : BindingKind} (names : namesBinding s.token = true)
    (shallow : s.depth < maxDepth) : derive (n + 1) (.target kind) c s = .ok () (s.boundHere kind) := by
  refine nested_ok shallow ?_ (s.depth_boundHere kind)
  have here : namesBinding ({ s with depth := s.depth + 1 } : State).token = true := names
  simp only [bindingTarget, bind_apply, isAtBindingName_apply, here, if_true, bindName_apply, pure_apply]
  exact congrArg _ (s.boundHere_depth kind _)

/-- What stands behind a property key and a colon is bound. -/
theorem propertyPattern_key {rules : Rules} {kind : BindingKind} (isKey : s.token.kind = .identifier)
    (colon : s.token.following.isPunctuator ":" = true)
    (target : rules (.target kind) c s.bumped.bumped = .ok () t) :
    propertyPattern rules kind c s = defaultValue rules c t := by
  have noRest : s.token.isPunctuator "..." = false := by simp [Token.isPunctuator, isKey]
  have key : propertyKey rules c s = .ok () s.bumped := by
    simp only [propertyKey, bind_apply, currentKind_apply, isKey, bump_apply]
  have colon' : s.bumped.token.isPunctuator ":" = true := by rw [s.token_bumped, colon]
  simp only [propertyPattern, bind_apply, eat_apply, noRest, Bool.false_eq_true, if_false, isAtBindingName_apply,
    peekIs_apply, colon, Bool.not_true, Bool.and_false, key, expect_ok colon', target, ite_apply]

/-- What stands behind the name of an export and the word `as` is bound. -/
theorem importedAs_other {start : Nat} {typeOnly : Bool} {imported : String} {token : Token}
    (word : s.bumped.token.isKeyword "as" = true) (names : namesBinding s.bumped.bumped.token = true) :
    importedAs start typeOnly token imported c s = .ok
      { imported, localNode := ⟨s.nodes.size⟩, typeOnly, span := ⟨start, s.bumped.bumped.token.last.offset⟩ }
      (s.bumped.bumped.bumped.bind s.bumped.bumped.token { kind := .imported }) := by
  have bound : bind s.bumped.bumped.token { kind := .imported } c s.bumped.bumped.bumped =
      .ok ⟨s.nodes.size⟩ (s.bumped.bumped.bumped.bind s.bumped.bumped.token { kind := .imported }) := by
    refine Eq.trans rfl (congrArg (EStateM.Result.ok · _) ?_)
    rw [State.nodes_bumped, State.nodes_bumped, State.nodes_bumped]
  have other : specifierLocal token c s.bumped = .ok (s.bumped.bumped.token, false) s.bumped.bumped.bumped := by
    simp only [specifierLocal, eatWord, bind_apply, bump_apply, isAtWord_apply, word, if_true, pure_apply,
      isAtBindingName_apply, names, currentToken_apply]
  rw [importedAs, bind_ok bump_apply, bind_ok other]
  refine (bind_ok bound).trans ?_
  rw [← State.previousEnd_bumped]
  rfl

/-! ### Renamed bindings -/

/-- Where the words of a renamed binding begin, the parser binds the new name and then stands at a place: behind the key
of a property, as a specifier of an import that names the same export, or as it stands. -/
structure State.BindsAnew (c : Context) (s : State) (site : BindingSite) (oldName name : String) (stop : Cursor) :
    Prop where
  property : site.shorthand = true → s.depth < maxDepth → ∀ (n : Nat) (kind : BindingKind),
    ∃ t, propertyPattern (derive (n + 1)) kind c s = defaultValue (derive (n + 1)) c t ∧
      s.HasBound t name { kind } stop
  specifier : site.shorthand = false → site.unaliased = true → ∀ (start : Nat) (typeOnly : Bool),
    ∃ t, importedAs start typeOnly s.token (identifierName s.token) c s =
        .ok { imported := oldName, localNode := ⟨s.nodes.size⟩, typeOnly, span := ⟨start, stop.offset⟩ } t ∧
      s.HasBound t name { kind := .imported } stop
  name : site.shorthand = false → site.unaliased = false → ∀ own : BindingSite,
    ∃ t, bindCurrent own c s = .ok ⟨s.nodes.size⟩ t ∧ s.HasBound t name own stop

theorem bindsAnew_of_reads {site : BindingSite} {oldName : String} {place : Cursor} (isName : IsName name)
    (reads : (renamedWords site oldName name).Reads stop place)
    (here : s.token = { Token.read place with newlineBefore := s.token.newlineBefore }) :
    s.BindsAnew c site oldName name stop := by
  have next : s.bumped.token = (Token.read place).following := by
    rw [s.token_bumped, here]
    rfl
  have last : s.bumped.bumped.token = (Token.read place).following.following := by rw [State.token_bumped, next]
  have read := s.adds_bumped.trans s.bumped.adds_bumped
  refine ⟨fun shorthand shallow n kind => ?_, fun plain unaliased start typeOnly => ?_, fun plain aliased own => ?_⟩
  · rw [renamedWords, keptWords, renamedGap, shorthand] at reads
    obtain ⟨isKey, -, -, -, colonKind, colonText, -, -, kind₂, text₂, plain₂, -, ends⟩ := reads
    have colon : s.token.following.isPunctuator ":" = true := by
      rw [← s.token_bumped, next]
      exact isPunctuator_of_spelled ':' colonKind colonText
    have names : namesBinding s.bumped.bumped.token = true := by
      rw [last]
      exact namesBinding_of_spelled isName kind₂ text₂
    have named : identifierName s.bumped.bumped.token = name := by
      rw [last]
      exact identifierName_of_spelled text₂ plain₂
    have deep : s.bumped.bumped.depth < maxDepth := by rwa [State.depth_bumped, State.depth_bumped]
    refine ⟨_, propertyPattern_key (by rw [here]; exact isKey) colon (target_name names deep), ?_⟩
    exact .after read (State.hasBound_bumped named (last ▸ ends) { kind })
  · rw [renamedWords, keptWords, renamedGap, plain, unaliased] at reads
    obtain ⟨-, text₀, plain₀, -, kind₁, text₁, plain₁, -, kind₂, text₂, plain₂, -, ends⟩ := reads
    have imported : identifierName s.token = oldName := by
      rw [here]
      exact identifierName_of_spelled text₀ plain₀
    have word : s.bumped.token.isKeyword "as" = true := by
      rw [next]
      exact isKeyword_of_spelled kind₁ text₁ plain₁
    have names : namesBinding s.bumped.bumped.token = true := by
      rw [last]
      exact namesBinding_of_spelled isName kind₂ text₂
    have named : identifierName s.bumped.bumped.token = name := by
      rw [last]
      exact identifierName_of_spelled text₂ plain₂
    have stops : s.bumped.bumped.token.last = stop := last ▸ ends
    refine ⟨_, (importedAs_other word names).trans ?_, .after read (State.hasBound_bind named stops _)⟩
    rw [imported, stops]
  · rw [renamedWords, keptWords, renamedGap, plain, aliased] at reads
    obtain ⟨-, text₀, plain₀, -, ends⟩ := reads
    have named : identifierName s.token = name := by
      rw [here]
      exact identifierName_of_spelled text₀ plain₀
    have stops : s.token.last = stop := by
      rw [here]
      exact ends
    exact ⟨_, bindCurrent_apply own, State.hasBound_bumped named stops own⟩

end Grammar

end BindingRepair.Script
