/-
# Reading inserted imports back

The text of an import declaration that an edit inserts is read as this declaration, with a binding for each of its
names, if a semicolon ends it or what stands behind it needs none.
-/

import BindingRepair.Proofs.Grammar.Inserted

namespace BindingRepair.Script

open Text

/-- An import declaration that is inserted. -/
structure InsertedImport where
  names : List String
  quote : Char
  module : String
deriving DecidableEq, Repr

namespace InsertedImport

open Grammar

/-- The declaration has names, and the name of the module can stand between the quotes. -/
structure Valid (d : InsertedImport) : Prop where
  nonempty : d.names ≠ []
  identifiers : ∀ name ∈ d.names, isIdentifier name = true
  quotes : d.quote = '\'' ∨ d.quote = '"'
  plain : ∀ c ∈ d.module.toList, c ≠ d.quote ∧ c ≠ '\\' ∧ c ≠ '\n' ∧ c ≠ '\r'

/-- The words of names with commas between them. -/
def listed : List String → Phrase
  | [] => []
  | [name] => [([' '], .name name)]
  | name :: next :: names => ([' '], .name name) :: ([], .mark ',') :: listed (next :: names)

/-- The words of the declaration up to its names, with a gap before it. -/
def front (lead : List Char) : Phrase :=
  [(lead, .name "import"), ([' '], .mark '{')]

/-- The words of the declaration behind its names. -/
def back (d : InsertedImport) : Phrase :=
  [([' '], .mark '}'), ([' '], .name "from"), ([' '], .literal d.quote d.module.toList)]

/-- The words of the declaration, with a gap before it. -/
def phrase (lead : List Char) (d : InsertedImport) : Phrase :=
  front lead ++ (listed d.names ++ d.back)

/-- The words of the declaration with its semicolon, if it gets one. -/
def sentence (lead : List Char) (semicolons : Bool) (d : InsertedImport) : Phrase :=
  d.phrase lead ++ if semicolons then [([], .mark ';')] else []

/-- The node of a name that is imported under its own name. -/
def nameNode (exported : Bool) (name : String) : NodeKind :=
  .identifier { name, role := .binding { kind := .imported, unaliased := true, exported } }

/-- The nodes of the declaration, whose own is read as `i`, numbered from `first` on, inside a node `parent`. -/
def nodes (i : ImportNode) (first : Nat) (parent : Option NodeId) (exported : Bool) (d : InsertedImport) :
    List (NodeKind × Option NodeId) :=
  (.importDeclaration i, parent) :: d.names.map fun name => (nameNode exported name, some ⟨first⟩)

/-- The specifiers import the names, which the nodes from `first` on bind. -/
def Specifies (first : Nat) (names : List String) (specifiers : List ImportSpecifier) : Prop :=
  specifiers.map (fun p => (p.imported, p.localNode, p.typeOnly)) =
    names.mapIdx fun k name => (name, ⟨first + k⟩, false)

/-- The node is that of the declaration, whose names the nodes from `first` on bind. -/
structure IsReadAs (d : InsertedImport) (first : Nat) (i : ImportNode) : Prop where
  source : i.source = d.module
  typeOnly : i.typeOnly = false
  defaultName : i.defaultName = none
  namespaceName : i.namespaceName = none
  added : i.added = []
  named : ∃ named, i.named = some named ∧ Specifies first d.names named.specifiers

/-! ### Words -/

theorem fits_listed {names : List String} (identifiers : ∀ name ∈ names, isIdentifier name = true)
    {rest : List Char} (ends : endsIdentifier rest = true) : (listed names).Fits rest := by
  have space : ∀ c ∈ [' '], Unicode.isBlank c = true := List.forall_mem_singleton.mpr rfl
  induction names using listed.induct with
  | case1 => trivial
  | case2 name => exact ⟨space, ⟨identifiers name List.mem_cons_self, ends⟩, trivial⟩
  | case3 name next names ih =>
      have later := ih fun other here => identifiers other (List.mem_cons_of_mem name here)
      exact ⟨space, ⟨identifiers name List.mem_cons_self, rfl⟩, nofun, List.mem_of_elem_eq_true rfl, later⟩

theorem fits_sentence {d : InsertedImport} (valid : d.Valid) {lead : List Char}
    (blank : ∀ c ∈ lead, Unicode.isBlank c = true) (semicolons : Bool) (rest : List Char) :
    (d.sentence lead semicolons).Fits rest := by
  have space : ∀ c ∈ [' '], Unicode.isBlank c = true := List.forall_mem_singleton.mpr rfl
  have ending : (if semicolons then [([], .mark ';')] else [] : Phrase).Fits rest := by
    cases semicolons with
    | true => exact ⟨nofun, List.mem_of_elem_eq_true rfl, trivial⟩
    | false => trivial
  refine Phrase.fits_append.mpr ⟨Phrase.fits_append.mpr ⟨?_, Phrase.fits_append.mpr ⟨?_, ?_⟩⟩, ending⟩
  · exact ⟨blank, ⟨by decide, rfl⟩, space, List.mem_of_elem_eq_true rfl, trivial⟩
  · exact fits_listed valid.identifiers (endsIdentifier_of_isBlank rfl _)
  · exact ⟨space, List.mem_of_elem_eq_true rfl, space, ⟨by decide, rfl⟩, space, ⟨valid.quotes, valid.plain⟩, trivial⟩

end InsertedImport

namespace Grammar

open InsertedImport

variable {c : Context} {s t u : State} {rules : Rules} {place mid stop : Cursor} {lead : List Char}

/-! ### Names in braces -/

/-- The state behind a name that is imported under its own name. -/
def State.importedHere (s : State) : State :=
  s.bumped.bind s.token { kind := .imported, unaliased := true }

theorem State.token_importedHere (s : State) : s.importedHere.token = s.token.following :=
  s.token_bumped

theorem State.adds_importedHere (s : State) :
    s.Adds s.importedHere [(nameNode s.exporting (identifierName s.token), s.opened.head?)] where
  outline := by
    rw [importedHere, outline_bind, outline_bumped, opened_bumped, exporting_bumped]
    rfl
  opened := s.opened_bumped
  scope := s.scope_bumped
  depth := s.depth_bumped
  exporting := s.exporting_bumped

/-- The specifier of a name that is imported under its own name. -/
def State.specifierHere (s : State) : ImportSpecifier where
  imported := identifierName s.token
  localNode := ⟨s.nodes.size⟩
  typeOnly := false
  span := ⟨s.token.start, s.bumped.previousEnd.offset⟩

/-- A name with a mark behind it is a specifier, whatever word it is. -/
theorem importSpecifier_ok (kind : s.token.kind = .identifier) (next : s.token.following.kind = .punctuator) :
    importSpecifier c s = .ok s.specifierHere s.importedHere := by
  have noModifier : eatTypeModifier true c s = .ok false s := by
    unfold eatTypeModifier
    simp only [bind_apply, isTypescript_apply, isAtWord_apply, ite_apply, peek_apply, next, pure_apply]
    split
    · rfl
    · rfl
  have noAlias : s.bumped.token.isKeyword "as" = false := by
    rw [s.token_bumped]
    simp [Token.isKeyword, Token.isWord, next]
  have bound : bind s.token { kind := .imported, unaliased := true } c s.bumped =
      .ok ⟨s.nodes.size⟩ s.importedHere := by
    refine Eq.trans rfl (congrArg (EStateM.Result.ok · s.importedHere) ?_)
    rw [s.nodes_bumped]
  have stop : previousStop c s.importedHere = .ok s.bumped.previousEnd.offset s.importedHere := rfl
  unfold importSpecifier importedAs specifierLocal eatWord
  simp only [bind_apply, currentStart_apply, noModifier, currentToken_apply, kind, pure_apply, bump_apply,
    isAtWord_apply, noAlias, Bool.false_eq_true, if_false, ite_apply, beq_self_eq_true, if_true, bound, stop,
    State.specifierHere]

/-- One round through the names in braces. -/
def namesRound (specifiers : Array ImportSpecifier) :
    Parser (Sum (Array ImportSpecifier) (Array ImportSpecifier)) := do
  if ← isAt "\x7d" then return .inr specifiers
  let specifier ← importSpecifier
  unless ← isAt "\x7d" do expect ","
  return .inl (specifiers.push specifier)

theorem namesRound_closing {specifiers : Array ImportSpecifier} (closes : s.token.isPunctuator "\x7d" = true) :
    namesRound specifiers c s = .ok (.inr specifiers) s := by
  simp only [namesRound, bind_apply, isAt_apply, closes, if_true, pure_apply]

section Round

variable {specifiers : Array ImportSpecifier} (kind : s.token.kind = .identifier)
include kind

/-- A name in front of the closing brace is read alone. -/
theorem namesRound_last (closes : s.token.following.isPunctuator "\x7d" = true) :
    namesRound specifiers c s = .ok (.inl (specifiers.push s.specifierHere)) s.importedHere := by
  have here : s.token.isPunctuator "\x7d" = false := by simp [Token.isPunctuator, kind]
  have behind : s.importedHere.token.isPunctuator "\x7d" = true := by rw [s.token_importedHere, closes]
  simp only [namesRound, bind_apply, isAt_apply, here, Bool.false_eq_true, if_false,
    importSpecifier_ok kind (kind_of_isPunctuator closes), behind, if_true, pure_apply]

/-- Any other name is read with the comma behind it. -/
theorem namesRound_name (comma : s.token.following.isPunctuator "," = true) :
    namesRound specifiers c s = .ok (.inl (specifiers.push s.specifierHere)) s.importedHere.bumped := by
  have here : s.token.isPunctuator "\x7d" = false := by simp [Token.isPunctuator, kind]
  have behind : s.importedHere.token.isPunctuator "," = true := by rw [s.token_importedHere, comma]
  simp only [namesRound, bind_apply, isAt_apply, here, Bool.false_eq_true, if_false,
    importSpecifier_ok kind (kind_of_isPunctuator comma), isPunctuator_of_ne behind (show "," ≠ "\x7d" by decide),
    expect_ok behind, pure_apply]

end Round

theorem specifies_cons {first : Nat} {name : String} {names : List String} {specifier : ImportSpecifier}
    {specifiers : List ImportSpecifier} (imported : specifier.imported = name) (localNode : specifier.localNode = ⟨first⟩)
    (typeOnly : specifier.typeOnly = false) (others : Specifies (first + 1) names specifiers) :
    Specifies first (name :: names) (specifier :: specifiers) := by
  rw [Specifies, List.map_cons, List.mapIdx_cons, imported, localNode, typeOnly, others]
  simp only [Nat.add_zero, Nat.add_assoc, Nat.add_comm 1]

/-- Names are read one by one up to the closing brace, and bound in order. -/
theorem namesLoop_ok {names : List String} {n : Nat} (specifiers : Array ImportSpecifier) (rounds : names.length < n)
    (reads : (listed names).Reads mid place) (here : s.token = Token.read place)
    (closes : (Token.read mid).isPunctuator "\x7d" = true) :
    ∃ more t, loopUpTo namesRound n specifiers c s = .ok (specifiers ++ more) t ∧
      Specifies s.nodes.size names more.toList ∧
      s.Adds t (names.map fun name => (nameNode s.exporting name, s.opened.head?)) ∧
      t.token = Token.read mid := by
  induction names using listed.induct generalizing specifiers s place n with
  | case1 =>
      obtain rfl : place = mid := reads
      obtain ⟨n, rfl⟩ : ∃ m, n = m + 1 := ⟨n - 1, by omega⟩
      refine ⟨#[], s, ?_, rfl, ⟨(List.append_nil _).symm, rfl, rfl, rfl, rfl⟩, here⟩
      rw [loopUpTo_done (namesRound_closing (here ▸ closes)), Array.append_empty]
  | case2 name =>
      obtain ⟨kind, text, plain, -, last⟩ := reads
      rw [← here] at kind text plain last
      obtain ⟨n, rfl⟩ : ∃ m, n = m + 2 := ⟨n - 2, by rw [List.length_singleton] at rounds; omega⟩
      have next : s.token.following = Token.read mid := congrArg Token.read last
      have atClosing : s.importedHere.token.isPunctuator "\x7d" = true := by rw [s.token_importedHere, next, closes]
      have named := identifierName_of_spelled text plain
      refine ⟨#[s.specifierHere], s.importedHere, ?_, ?_, ?_, s.token_importedHere.trans next⟩
      · rw [loopUpTo_more (namesRound_last kind (next ▸ closes)), loopUpTo_done (namesRound_closing atClosing),
          Array.push_eq_append]
      · exact specifies_cons named rfl rfl rfl
      · rw [List.map_singleton, ← named]
        exact s.adds_importedHere
  | case3 name other names ih =>
      obtain ⟨kind, text, plain, -, markKind, markText, -, -, rest⟩ := reads
      rw [← here] at kind text plain markKind markText rest
      obtain ⟨n, rfl⟩ : ∃ m, n = m + 1 := ⟨n - 1, by omega⟩
      have comma : s.token.following.isPunctuator "," = true := isPunctuator_of_spelled ',' markKind markText
      have named := identifierName_of_spelled text plain
      have adds := s.adds_importedHere.trans s.importedHere.adds_bumped
      have next : s.importedHere.bumped.token = Token.read s.token.following.last := by
        rw [State.token_bumped, s.token_importedHere]
        rfl
      obtain ⟨more, t, read, specifies, later, last⟩ := ih (specifiers.push s.specifierHere)
        (Nat.lt_of_succ_lt_succ rounds) rest next
      refine ⟨#[s.specifierHere] ++ more, t, ?_, ?_, ?_, last⟩
      · rw [loopUpTo_more (namesRound_name kind comma), read, Array.push_eq_append, Array.append_assoc]
      · rw [adds.size] at specifies
        rw [Array.toList_append]
        exact specifies_cons named rfl rfl specifies
      · rw [adds.exporting, adds.opened] at later
        have all := adds.trans later
        rw [named] at all
        exact all

theorem namedImports_ok {names : List String} (opens : s.token.isPunctuator "\x7b" = true)
    (reads : (listed names).Reads mid s.token.last) (closes : (Token.read mid).isPunctuator "\x7d" = true)
    (bounded : names.length < c.bound) :
    ∃ named t, namedImports c s = .ok named t ∧ Specifies s.nodes.size names named.specifiers ∧
      s.Adds t (names.map fun name => (nameNode s.exporting name, s.opened.head?)) ∧
      t.token = Token.read (Token.read mid).last := by
  obtain ⟨more, t, read, specifies, adds, last⟩ :=
    namesLoop_ok (c := c) #[] bounded reads s.token_bumped closes
  have inside : loop #[] namesRound c s.bumped = .ok more t := by
    rw [loop, bind_ok read_apply, read, Array.empty_append]
  rw [s.nodes_bumped] at specifies
  rw [s.exporting_bumped, s.opened_bumped] at adds
  have all := (s.adds_bumped.trans adds).trans t.adds_bumped
  rw [List.nil_append, List.append_nil] at all
  refine ⟨⟨s.token.start, t.token.start, more.toList⟩, t.bumped, ?_, specifies, all, ?_⟩
  · rw [namedImports, bind_ok currentStart_apply, bind_ok (expect_ok opens)]
    refine (bind_ok inside).trans ?_
    rw [bind_ok currentStart_apply, bind_ok bump_apply, pure_apply]
  · rw [t.token_bumped, last]
    rfl

/-! ### Modules -/

/-- The value of a string without escapes stands between its quotes. -/
theorem stringValue_of_spelled {t : Token} {quote : Char} {value : List Char}
    (text : t.text = String.ofList (quote :: (value ++ [quote]))) : stringValue t = String.ofList value := by
  rw [stringValue, text, String.toList_ofList, List.drop_succ_cons, List.drop_zero, List.dropLast_concat]

theorem fromModule_ok (word : s.token.isKeyword "from" = true) (string : s.token.following.kind = .string) :
    fromModule c s = .ok (stringValue s.token.following) s.bumped.bumped := by
  have kind : s.bumped.token.kind = .string := by rw [s.token_bumped, string]
  have value : stringValue s.bumped.token = stringValue s.token.following := by rw [s.token_bumped]
  simp only [fromModule, expectWord, eatWord, bind_apply, isAtWord_apply, word, if_true, bump_apply, pure_apply,
    currentToken_apply, kind, beq_self_eq_true, value]

/-- Where a statement ends, no attributes of an import follow. -/
theorem importAttributes_none (ends : EndsAt mid stop) (here : s.token = Token.read mid) :
    importAttributes c s = .ok () s := by
  have none : s.token.newlineBefore = true ∨ s.token.isWord = false := by
    rw [here]
    cases ends with
    | semicolon semicolon => exact .inr (by simp [Token.isWord, kind_of_isPunctuator semicolon])
    | inserted _ ends =>
        simp only [endsStatement, Bool.or_eq_true, beq_iff_eq] at ends
        rcases ends with (brace | last) | newline
        · exact .inr (by simp [Token.isWord, kind_of_isPunctuator brace])
        · exact .inr (by simp [Token.isWord, last])
        · exact .inl newline
  unfold importAttributes
  simp only [bind_apply, isAtWord_apply, currentToken_apply, ite_apply, pure_apply]
  rcases none with newline | noWord
  · simp [newline]
  · simp [Token.isKeyword, noWord]

/-! ### Import declarations -/

/-- The node of an import of names. -/
def importNode (named : NamedImports) (module : String) : ImportNode where
  source := module
  named := some named

/-- The names in braces and the module behind them. -/
theorem importParts_ok {named : NamedImports} (opens : s.token.isPunctuator "\x7b" = true)
    (names : namedImports c s = .ok named t) (word : t.token.isKeyword "from" = true)
    (string : t.token.following.kind = .string) :
    importParts false c s = .ok (importNode named (stringValue t.token.following)) t.bumped.bumped := by
  have kind := kind_of_isPunctuator opens
  have noName : namesBinding s.token = false := by simp [namesBinding, kind]
  have noString : (s.token.kind == .string) = false := by rw [kind]; rfl
  have clause : importNames false c s = .ok (importNode named "") t := by
    simp only [importNames, importClause, bind_apply, isAtBindingName_apply, noName, Bool.false_eq_true, if_false,
      eat_apply, isPunctuator_of_ne opens (show "\x7b" ≠ "*" by decide), isAt_apply, opens, if_true, names, pure_apply]
    rfl
  rw [importParts, bind_ok currentToken_apply, noString, if_neg Bool.false_ne_true]
  refine (bind_ok clause).trans ?_
  rw [bind_ok (fromModule_ok word string)]
  rfl

/-- The written names in braces are bound one by one, and the written module is the one they come from. -/
theorem importParts_written {d : InsertedImport} (opens : s.token.isPunctuator "\x7b" = true)
    (reads : (listed d.names ++ d.back).Reads mid s.token.last) (bounded : d.names.length < c.bound) :
    ∃ i t, importParts false c s = .ok i t ∧ d.IsReadAs s.nodes.size i ∧
      s.Adds t (d.names.map fun name => (nameNode s.exporting name, s.opened.head?)) ∧
      t.token = Token.read mid ∧ t.previousEnd = mid := by
  obtain ⟨closing, names, kind, text, -, -, wordKind, wordText, plain, -, moduleKind, moduleText, -, -, last⟩ :=
    Phrase.reads_append.mp reads
  have closes : (Token.read closing).isPunctuator "\x7d" = true := isPunctuator_of_spelled '\x7d' kind text
  obtain ⟨named, t, read, specifies, adds, token⟩ := namedImports_ok opens names closes bounded
  have word : t.token.isKeyword "from" = true := by
    rw [token]
    exact isKeyword_of_spelled wordKind wordText plain
  have string : t.token.following.kind = .string := by
    rw [token]
    exact moduleKind
  have source : stringValue t.token.following = d.module := by
    rw [token]
    exact (stringValue_of_spelled moduleText).trans String.ofList_toList
  have behind : t.bumped.token = (Token.read closing).following.following := by
    rw [t.token_bumped, token]
    rfl
  have all := (adds.trans t.adds_bumped).trans t.bumped.adds_bumped
  rw [List.append_nil, List.append_nil] at all
  refine ⟨_, _, importParts_ok opens read word string, ?_, all, ?_, ?_⟩
  · exact { source, typeOnly := rfl, defaultName := rfl, namespaceName := rfl, added := rfl,
            named := ⟨named, rfl, specifies⟩ }
  · rw [State.token_bumped, behind]
    exact congrArg Token.read last
  · rw [State.previousEnd_bumped, behind]
    exact last

/-- The state inside an import declaration, behind its keyword. -/
def State.insideImport (s : State) : State :=
  (s.openNode .statement s.token.start).bumped

/-- An import declaration of names, up to its end. -/
theorem importDeclaration_ok {node : ImportNode} (opens : s.token.following.isPunctuator "\x7b" = true)
    (parts : importParts false c s.insideImport = .ok node t) (noAttributes : importAttributes c t = .ok () t)
    (ended : consumeSemicolon c t = .ok () u) :
    importDeclaration c s = .ok () ((u.setKind ⟨s.nodes.size⟩ (.importDeclaration node)).closeNode ⟨s.nodes.size⟩) := by
  have token : s.insideImport.token = s.token.following := State.token_bumped _
  have kind := kind_of_isPunctuator opens
  have noWord : s.insideImport.token.isKeyword "type" = false := by simp [Token.isKeyword, Token.isWord, token, kind]
  have noType : eatImportType c s.insideImport = .ok false s.insideImport := by
    simp only [eatImportType, bind_apply, isTypescript_apply, isAtWord_apply, noWord, Bool.and_false,
      Bool.false_eq_true, if_false, pure_apply]
  have noName : namesBinding s.insideImport.token = false := by simp [namesBinding, token, kind]
  rw [importDeclaration, bind_ok currentStart_apply, bind_ok (openNode_apply _ _), bind_ok bump_apply]
  refine (bind_ok noType).trans ?_
  simp only [bind_apply, isAtBindingName_apply, isTypescript_apply, peekIs_apply, noName, Bool.false_and,
    Bool.false_eq_true, if_false, parts, noAttributes, ended]
  rfl

theorem State.inDeclaration_insideImport (s : State) :
    s.InDeclaration s.insideImport [(.statement, s.opened.head?)] where
  outline := by rw [insideImport, outline_bumped, outline_openNode]
  opened := opened_bumped _
  scope := scope_bumped _
  exporting := exporting_bumped _

/-- Inside a declaration that was opened at a state more nodes are added. -/
theorem State.InDeclaration.trans {added more : List (NodeKind × Option NodeId)} (inside : s.InDeclaration t added)
    (adds : t.Adds u more) : s.InDeclaration u (added ++ more) where
  outline := by rw [adds.outline, inside.outline, List.append_assoc]
  opened := adds.opened.trans inside.opened
  scope := adds.scope.trans inside.scope
  exporting := adds.exporting.trans inside.exporting

/-- The node of a declaration may get another kind before it is closed. -/
theorem State.InDeclaration.setKind {kind : NodeKind} {parent : Option NodeId}
    {added : List (NodeKind × Option NodeId)} (inside : s.InDeclaration t ((kind, parent) :: added)) (other : NodeKind) :
    s.InDeclaration (t.setKind ⟨s.nodes.size⟩ other) ((other, parent) :: added) where
  outline := by rw [outline_setKind, inside.outline, ← s.length_outline, modify_append]
  opened := inside.opened
  scope := inside.scope
  exporting := inside.exporting

theorem declarationOf_import (word : s.token.text = "import") (opens : s.token.following.isPunctuator "\x7b" = true)
    (declares : importDeclaration c s = .ok () t) : declarationOf rules s.token.text c s = .ok true t := by
  have declaration : importDeclares c s = .ok true s := by
    simp only [importDeclares, bind_apply, peekIs_apply, isPunctuator_of_ne opens (show "\x7b" ≠ "(" by decide),
      isPunctuator_of_ne opens (show "\x7b" ≠ "." by decide), pure_apply]
    rfl
  rw [word]
  simp [declarationOf, bind_apply, declaration, declares]

/-- A written import declaration is read as one statement, the declaration, and ends where it was meant to. -/
theorem derive_import {n : Nat} {d : InsertedImport} (reads : (d.phrase lead).Reads mid place)
    (here : s.token = Token.read place) (ends : EndsAt mid stop) (bounded : d.names.length < c.bound)
    (shallow : s.depth < maxDepth) :
    ∃ t i, derive (n + 2) .item c s = .ok () t ∧ d.IsReadAs (s.nodes.size + 1) i ∧
      s.Adds t (d.nodes i s.nodes.size s.opened.head? s.exporting) ∧
      t.token = Token.read stop ∧ t.previousEnd = stop := by
  obtain ⟨inner, ⟨kind₀, text₀, plain₀, -, kind₁, text₁, -, -, innerStart⟩, reads⟩ := Phrase.reads_append.mp reads
  rw [← here] at kind₀ text₀ plain₀ kind₁ text₁ innerStart
  have keyword : s.token.isKeyword "import" = true := isKeyword_of_spelled kind₀ text₀ plain₀
  have opens : s.token.following.isPunctuator "\x7b" = true := isPunctuator_of_spelled '\x7b' kind₁ text₁
  -- The item is read one level deeper, where the declaration is opened.
  let deeper : State := { s with depth := s.depth + 1 }
  have inside : deeper.insideImport.token = s.token.following := State.token_bumped _
  have named : (listed d.names ++ d.back).Reads mid deeper.insideImport.token.last := by
    have start : s.token.following.last = inner := innerStart
    rw [inside, start]
    exact reads
  obtain ⟨i, t, parts, isRead, adds, token, previousEnd⟩ :=
    importParts_written (by rw [inside]; exact opens) named bounded
  have level : t.depth = s.depth + 1 := adds.depth.trans (State.depth_bumped _)
  have declared := deeper.inDeclaration_insideImport.trans adds
  obtain ⟨u, ended, stopped, stoppedBehind, same, exporting, depth⟩ :=
    consumeSemicolon_endsAt (c := c) ends token previousEnd
  have whole := (declared.sameTree same exporting).setKind (.importDeclaration i)
  have read := importDeclaration_ok (s := deeper) opens parts (importAttributes_none ends token) ended
  obtain ⟨v, item, addsItem, itemToken, itemBehind⟩ := derive_item_of_inDeclaration (n := n) shallow
    (isWord_of_isKeyword keyword) whole (depth.trans level)
    (declarationOf_import (s := deeper) (text_of_isKeyword keyword) opens read)
  refine ⟨v, i, item, ?_, ?_, itemToken.trans stopped, itemBehind.trans stoppedBehind⟩
  · have size : deeper.insideImport.nodes.size = s.nodes.size + 1 := by
      simp [State.insideImport, State.openNode, State.addNode, deeper]
    rw [size] at isRead
    exact isRead
  · have parent : deeper.insideImport.opened.head? = some ⟨s.nodes.size⟩ :=
      congrArg List.head? deeper.inDeclaration_insideImport.opened
    have flag : deeper.insideImport.exporting = s.exporting := deeper.inDeclaration_insideImport.exporting
    rw [parent, flag] at addsItem
    exact addsItem

/-- A written declaration ends behind its semicolon, if it gets one, or where a statement without one ends. -/
def Finishes (semicolons : Bool) (behind stop : Cursor) : Prop :=
  if semicolons then stop = behind else EndsAt behind stop

theorem endsAt_of_reads {semicolons : Bool} {behind : Cursor} {d : InsertedImport}
    (finishes : Finishes semicolons behind stop) (reads : (d.sentence lead semicolons).Reads behind place) :
    ∃ mid, (d.phrase lead).Reads mid place ∧ EndsAt mid stop := by
  obtain ⟨mid, core, ending⟩ := Phrase.reads_append.mp reads
  refine ⟨mid, core, ?_⟩
  cases semicolons with
  | true =>
      obtain rfl : stop = behind := finishes
      obtain ⟨kind, text, -, -, rfl⟩ := ending
      exact .semicolon (isPunctuator_of_spelled ';' kind text)
  | false =>
      obtain rfl : mid = behind := ending
      exact finishes

end Grammar

end BindingRepair.Script
