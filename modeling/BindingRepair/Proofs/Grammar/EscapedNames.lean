/-
# Names with escapes

A name may be spelled with escapes. It is read as one identifier nonetheless, whose escapes are decoded to the name:
a binding is listed under it, and a reference is looked up by it.
-/

import BindingRepair.Proofs.Lexer.Tiling
import BindingRepair.Proofs.NameIndex

namespace BindingRepair.Script

open Text Grammar

/-- No escape is in the name of an identifier. -/
theorem backslash_not_mem_of_isIdentifier {name : String} (identifier : isIdentifier name = true) :
    '\\' ∉ name.toList :=
  fun here => ne_backslash_of_isIdentifierPart (isIdentifierPart_of_mem identifier _ here) rfl

/-- The meaning of an identifier in a parsed source is that of the name that it spells. -/
theorem meaning_of_spelled_name {name : String} (identifier : isIdentifier name = true) {text : List Char}
    {escaped : Bool} (spells : Spells name.toList text escaped) {source : String} {dialect : Dialect} {t : Tree}
    (parsed : parse source dialect = .ok t) {id : NodeId} {i : IdentifierNode} (here : t.identifier? id = some i)
    (covers : (t.spanOf id).chars t.source = text) :
    t.name? id = some name ∧ t.resolve? id = t.scopes.resolve? (t.scopeOf id) name ∧
      (i.site?.isSome = true → id ∈ (t.scopes.bindingsOf (t.scopeOf id)).nodesOf name) := by
  have indexed := indexed_of_parse parsed
  obtain ⟨s, finished, rfl⟩ := finished_of_parse parsed
  obtain ⟨n, found, kind⟩ := Tree.identifier?_eq_some_iff.mp here
  have decoded := (finished.isWellFormed dialect).names id n i found kind
  have span : (Tree.ofState source.toList dialect s).spanOf id = n.span := by rw [Tree.spanOf, found]; rfl
  obtain rfl : i.name = name := by
    rw [decoded, ← span, covers, spells.decode (backslash_not_mem_of_isIdentifier identifier), String.ofList_toList]
  have named : (Tree.ofState source.toList dialect s).name? id = some i.name := by rw [Tree.name?, here]; rfl
  refine ⟨named, ?_, fun binds => ?_⟩
  · rw [Tree.resolve?, named]
    rfl
  · exact (indexed.mem_iff _ _ _).mpr (Tree.binds_of_identifier? here binds)

/-- An identifier is read as one token, and as its name is meant, whichever of its characters are escapes. -/
theorem spelled_names_are_identifiers {name : String} (identifier : isIdentifier name = true) {text : List Char}
    {escaped : Bool} (spells : Spells name.toList text escaped) :
    tokenAfter text 0 = { Token.written .identifier false 0 text [] with escaped } ∧
      (tokenAfter text 1).kind = .endOfText ∧
      String.ofList (decodeEscapes none text) = name ∧
      ∀ (source : String) (dialect : Dialect) (t : Tree), parse source dialect = .ok t →
        ∀ id i, t.identifier? id = some i → (t.spanOf id).chars t.source = text →
          t.name? id = some name ∧ t.resolve? id = t.scopes.resolve? (t.scopeOf id) name ∧
            (i.site?.isSome = true → id ∈ (t.scopes.bindingsOf (t.scopeOf id)).nodesOf name) := by
  have token : tokenAfter text 0 = { Token.written .identifier false 0 text [] with escaped } := by
    have ends : endsIdentifier [] = true := rfl
    have read := Token.read_spelled (fun _ none => absurd none List.not_mem_nil) 0 identifier spells ends
    rw [List.nil_append, List.append_nil] at read
    rw [tokenAfter, standAfter, Cursor.start, read]
    simp [Token.written, byteLength]
  refine ⟨token, ?_, ?_, fun source dialect t parsed id i => meaning_of_spelled_name identifier spells parsed⟩
  · exact kind_tokenAfter_of_rest_eq_nil (congrArg (·.last.rest) token)
  · rw [spells.decode (backslash_not_mem_of_isIdentifier identifier), String.ofList_toList]

/-- Digits may be any numbers below sixteen. -/
theorem denotes_map_hexDigit (values : List Nat) (small : ∀ v ∈ values, v < 16) :
    Denotes (values.map hexDigit) (values.foldl (fun n v => 16 * n + v) 0) := by
  induction values using List.reverseRecOn with
  | nil => exact .nil
  | append_singleton vs v ih =>
      rw [List.map_append, List.foldl_append]
      exact .snoc (ih fun w here => small w (List.mem_append_left _ here)) (small v (by simp)) (.inl rfl)

/-- A name of which two characters are escapes, one behind the other. -/
def escapedName : List Char :=
  "\\u\x7b0061\x7d\\u00f1x".toList

theorem spells_escapedName : Spells "añx".toList escapedName true := by
  have first : Denotes ['0', '0', '6', '1'] 'a'.toNat := denotes_map_hexDigit [0, 0, 6, 1] (by decide)
  have second : Denotes ['0', '0', 'f', '1'] 'ñ'.toNat := denotes_map_hexDigit [0, 0, 15, 1] (by decide)
  have here : SpellsChar 'a' _ true := .braced first (List.cons_ne_nil _ _)
  exact .cons here (.cons (.short second) (.cons .plain .nil))

set_option maxRecDepth 100000 in
/-- A variable is declared with escapes in its name and used without them. -/
theorem escapedName_is_read : isIdentifier "añx" = true ∧ Spells "añx".toList escapedName true ∧
    (tokenAfter escapedName 0).escaped = true ∧ (tokenAfter escapedName 0).span = ⟨0, 15⟩ ∧
      ∃ t, parse "let \\u\x7b0061\x7d\\u00f1x = 1; añx" .javascript = .ok t ∧
        t.name? ⟨3⟩ = some "añx" ∧ ⟨3⟩ ∈ (t.scopes.bindingsOf Tree.moduleScope).nodesOf "añx" ∧
        t.resolve? ⟨5⟩ = some Tree.moduleScope := by
  have identifier : isIdentifier "añx" = true := by decide +kernel
  obtain ⟨token, -, -, meaning⟩ := spelled_names_are_identifiers identifier spells_escapedName
  refine ⟨identifier, spells_escapedName, ?_, ?_, ?_⟩
  · rw [token]
  · rw [token]
    rfl
  obtain ⟨t, parsed, test⟩ := exists_ok_of_test
    (parse "let \\u\x7b0061\x7d\\u00f1x = 1; añx" .javascript)
    (fun t => (t.spanOf ⟨3⟩).chars t.source == escapedName && (t.identifier? ⟨3⟩).any (·.site?.isSome) &&
      t.scopeOf ⟨3⟩ == Tree.moduleScope && t.resolve? ⟨5⟩ == some Tree.moduleScope) (by decide +kernel)
  simp only [Bool.and_eq_true, beq_iff_eq, Option.any_eq_true] at test
  obtain ⟨⟨⟨covers, i, here, binds⟩, scope⟩, used⟩ := test
  obtain ⟨named, -, listed⟩ := meaning _ _ t parsed ⟨3⟩ i here covers
  exact ⟨t, parsed, named, scope ▸ listed binds, used⟩

end BindingRepair.Script
