/-
# Printing a renamed binding

Of a parsed tree in which a binding was renamed, the source is printed with one word changed. Tokens in front of the
word are read as they were, unless a number touches it. Wherever a reader of the source gets to the old name, one of the
printed text gets to the words that stand for it, and a parser binds the new name there.
-/

import BindingRepair.Proofs.Grammar.EscapedNames
import BindingRepair.Proofs.Grammar.RenamedBindings
import BindingRepair.Proofs.LastRename
import BindingRepair.Proofs.Lexer.SingleWords
import BindingRepair.Proofs.Lexer.TokensInFront
import BindingRepair.Proofs.Splicing

namespace BindingRepair.Script

open Text

/-! ### Words -/

theorem text_renamedWords (site : BindingSite) (oldName name : String) :
    (renamedWords site oldName name).text = (Tree.renamedText site oldName name).toList := by
  rw [renamedWords, keptWords, renamedGap, Tree.renamedText]
  cases site.shorthand with
  | true => simp [Phrase.text, Word.text]
  | false =>
      cases site.unaliased with
      | true => simp [Phrase.text, Word.text]
      | false => simp [Phrase.text, Word.text]

/-- What is kept of the old name does not go on with the new one. -/
theorem fits_keptWords (site : BindingSite) {oldName : String} (isOld : isIdentifier oldName = true)
    (rest : List Char) : (keptWords site oldName).Fits (renamedGap site ++ rest) := by
  rw [keptWords, renamedGap]
  cases site.shorthand with
  | true =>
      exact ⟨List.forall_mem_nil _, ⟨isOld, rfl⟩, List.forall_mem_nil _, List.mem_of_elem_eq_true rfl, trivial⟩
  | false =>
      cases site.unaliased with
      | true =>
          exact ⟨List.forall_mem_nil _, ⟨isOld, rfl⟩, List.forall_mem_singleton.mpr rfl, ⟨by decide, rfl⟩, trivial⟩
      | false => trivial

/-- The words of a renamed binding are read one by one in front of what does not go on with the name. -/
theorem reads_renamedWords (site : BindingSite) {oldName name : String} (isOld : isIdentifier oldName = true)
    (isNew : isIdentifier name = true) {rest : List Char} (stops : StopsName rest) (offset : Nat) :
    (renamedWords site oldName name).Reads
      ⟨offset + byteLength (renamedWords site oldName name).text, rest⟩
      ⟨offset, (renamedWords site oldName name).text ++ rest⟩ := by
  have blank : ∀ c ∈ renamedGap site, Unicode.isBlank c = true := by
    rw [renamedGap]
    split
    · exact List.forall_mem_singleton.mpr rfl
    · exact List.forall_mem_nil _
  have text : (renamedWords site oldName name).text =
      (keptWords site oldName).text ++ (renamedGap site ++ name.toList) := by
    simp [renamedWords, Phrase.text, Word.text]
  have kept := (fits_keptWords site isOld (name.toList ++ rest)).reads offset
  have last := Token.read_spelled_of_stopsName blank (offset + byteLength (keptWords site oldName).text) isNew
    (.refl _) stops
  rw [text, byteLength_append, byteLength_append, List.append_assoc, List.append_assoc, ← Nat.add_assoc,
    ← Nat.add_assoc]
  exact Phrase.reads_append.mpr ⟨_, kept, congrArg Token.kind last, congrArg Token.text last,
    congrArg Token.escaped last, congrArg Token.newlineBefore last, congrArg Token.last last⟩

theorem beginsName_renamedText (site : BindingSite) {oldName name : String} (isOld : isIdentifier oldName = true)
    (isNew : isIdentifier name = true) : BeginsName (Tree.renamedText site oldName name).toList := by
  obtain ⟨c, cs, old, starts, -⟩ := isIdentifier_iff.mp isOld
  obtain ⟨d, ds, new, starts', -⟩ := isIdentifier_iff.mp isNew
  rw [Tree.renamedText]
  cases site.shorthand with
  | true => exact ⟨c, cs ++ ": ".toList ++ name.toList, by simp [old], starts⟩
  | false =>
      cases site.unaliased with
      | true => exact ⟨c, cs ++ " as ".toList ++ name.toList, by simp [old], starts⟩
      | false => exact ⟨d, ds, new, starts'⟩

/-! ### The text -/

theorem splice_word (front word behind : List Char) (text : String) :
    splice 0 (front ++ word ++ behind) [⟨⟨byteLength front, byteLength front + byteLength word⟩, text⟩] =
      .ok (front ++ text.toList ++ behind) := by
  have before : takeBytes (byteLength front) (front ++ word ++ behind) = front := by
    rw [List.append_assoc, takeBytes_byteLength]
  have after : dropBytes (byteLength front + byteLength word) (front ++ word ++ behind) = behind := by
    rw [← byteLength_append, dropBytes_byteLength]
  simp only [splice, Nat.not_lt_zero, if_false, Nat.sub_zero, before, after]
  rfl

namespace Tree

variable {t : Tree} {id : NodeId} {n : Node} {i : IdentifierNode} {site : BindingSite}

/-- Only the renamed binding is printed anew. -/
theorem patches_renamedAt (pristine : t.IsPristine) (untouched : Untouched t.nodes) (found : t.node? id = some n)
    (kind : n.kind = .identifier i) (binds : i.site? = some site) (name : String) :
    (t.renamedAt id i.name (i.renamed name)).patches = [⟨n.span, renamedText site i.name name⟩] := by
  obtain ⟨solid, first, inText⟩ := pristine.identifiers id n i found kind
  have patch : renamePatch? { n with kind := .identifier (i.renamed name) } =
      some ⟨n.span, renamedText site i.name name⟩ := by
    refine renamePatch?_eq_some_iff.mpr ⟨i.renamed name, i.name, site, rfl, ?_, binds, inText, ?_, rfl⟩
    · simp [IdentifierNode.renamed, first, inText]
    · simp [Span.isEmpty, Nat.ne_of_lt solid]
  have unmarked (part : List Node) (among : ∀ m ∈ part, m ∈ t.nodes.toList) : part.filterMap renamePatch? = [] := by
    refine List.filterMap_eq_nil_iff.mpr fun m here => ?_
    obtain ⟨index, bounded, same⟩ := List.getElem_of_mem (among m here)
    exact renamePatch?_of_unmarked (.inl (untouched index m (by rw [← same]; simp)))
  obtain ⟨bounded, here⟩ : ∃ bounded : id.index < t.nodes.toList.length, t.nodes.toList[id.index] = n :=
    List.getElem?_eq_some_iff.mp (by rw [Array.getElem?_toList]; exact found)
  have renames : (t.renamedAt id i.name (i.renamed name)).nodes.toList.filterMap renamePatch? =
      [⟨n.span, renamedText site i.name name⟩] := by
    show ((t.nodes.modify id.index _).toList).filterMap _ = _
    rw [Array.toList_modify, List.modify_eq_take_cons_drop bounded, here, List.filterMap_append,
      List.filterMap_cons_some patch, unmarked _ fun m => List.mem_of_mem_take,
      unmarked _ fun m => List.mem_of_mem_drop]
    rfl
  have imports : (t.renamedAt id i.name (i.renamed name)).imports.filterMap
      (fun entry => (t.renamedAt id i.name (i.renamed name)).importPatch? entry.1 entry.2) = [] := by
    refine importPatches_eq_nil fun index m there isImport => .inl ?_
    have there : (t.nodes.modify id.index _)[index]? = some m := there
    rw [Array.getElem?_modify] at there
    split at there
    · obtain ⟨_, -, rfl⟩ := Option.map_eq_some_iff.mp there
      cases isImport
    · exact untouched index m there
  have insertions : (t.renamedAt id i.name (i.renamed name)).insertions = [] := pristine.insertions
  rw [patches, renames, imports, insertions]
  exact List.mergeSort_singleton _

end Tree

/-! ### Readers of both texts -/

/-- Where a name begins it is read. -/
theorem Token.read_of_isIdentifierStart {c : Char} (starts : isIdentifierStart c = true) (offset : Nat)
    (cs : List Char) : Token.read ⟨offset, c :: cs⟩ = Token.readAt false ⟨offset, c :: cs⟩ := by
  refine Token.read_append (List.forall_mem_nil _) (opensToken_of_isIdentifierStart starts) ?_ offset cs
  rintro rfl
  exact absurd starts (by decide)

/-- Behind an identifier no identifier goes on. -/
theorem Token.stopsName_readAt {newline : Bool} {place : Cursor}
    (identifier : (readAt newline place).kind = .identifier) : StopsName (readAt newline place).last.rest := by
  cases here : place.rest with
  | nil =>
      have ends := (kind_readAt_eq_endOfText_iff newline place).mpr here
      rw [identifier] at ends
      cases ends
  | cons c cs =>
      cases opens : opensName c || c == '\\' with
      | false => exact absurd identifier (kind_readAt_ne newline here opens).1
      | true =>
          unfold readAt at identifier ⊢
          rw [here] at identifier ⊢
          dsimp only at identifier ⊢
          rw [if_pos opens] at identifier ⊢
          cases found : pastIdentifierChar? true place with
          | none =>
              rw [found] at identifier
              cases identifier
          | some behind => exact stopsName_skipIdentifier _ _

/-- A reader gets over a gap to a name that is spelled without escapes. -/
structure GetsToName (offset : Nat) (gap word behind : List Char) : Prop where
  kind : (Token.read ⟨offset, gap ++ (word ++ behind)⟩).kind = .identifier
  plain : (Token.read ⟨offset, gap ++ (word ++ behind)⟩).escaped = false
  span : (Token.read ⟨offset, gap ++ (word ++ behind)⟩).span =
    ⟨offset + byteLength gap, offset + byteLength gap + byteLength word⟩

namespace GetsToName

variable {offset : Nat} {gap word behind : List Char} (gets : GetsToName offset gap word behind)
include gets

theorem first :
    (Token.read ⟨offset, gap ++ (word ++ behind)⟩).first = ⟨offset + byteLength gap, word ++ behind⟩ := by
  have there : Cursor.Reaches ⟨offset, gap ++ (word ++ behind)⟩ ⟨offset + byteLength gap, word ++ behind⟩ :=
    ⟨gap, rfl, rfl⟩
  exact (Token.reaches_read _).eq_of_offset there (congrArg Span.start gets.span)

theorem last : (Token.read ⟨offset, gap ++ (word ++ behind)⟩).last =
    ⟨offset + byteLength gap + byteLength word, behind⟩ := by
  have reaches := (Token.covers_read ⟨offset, gap ++ (word ++ behind)⟩).fills.reaches
  rw [gets.first] at reaches
  have there : Cursor.Reaches ⟨offset + byteLength gap, word ++ behind⟩
      ⟨offset + byteLength gap + byteLength word, behind⟩ := ⟨word, rfl, rfl⟩
  exact reaches.eq_of_offset there (congrArg Span.stop gets.span)

theorem stopsName : StopsName behind := by
  have stops : StopsName (Token.read ⟨offset, gap ++ (word ++ behind)⟩).last.rest := Token.stopsName_readAt gets.kind
  rwa [gets.last] at stops

theorem isIdentifier : isIdentifier (String.ofList word) = true := by
  have spelled := Token.isIdentifier_text gets.kind gets.plain
  have text := (Token.covers_read ⟨offset, gap ++ (word ++ behind)⟩).text
  rw [gets.first, gets.last, Cursor.textTo_append] at text
  exact text ▸ spelled

theorem beginsName : BeginsName word := by
  obtain ⟨c, cs, chars, starts, -⟩ := isIdentifier_iff.mp gets.isIdentifier
  rw [String.toList_ofList] at chars
  exact ⟨c, cs, chars, starts⟩

/-- A reader gets over the gap to another word that begins as names do. -/
theorem read_other {c : Char} (starts : isIdentifierStart c = true) (cs : List Char) :
    Token.read ⟨offset, gap ++ (c :: cs)⟩ =
      Token.readAt (Token.read ⟨offset, gap ++ (word ++ behind)⟩).newlineBefore ⟨offset + byteLength gap, c :: cs⟩ := by
  have stops := triviaEnd_of_opensToken (opensToken_of_isIdentifierStart starts)
  have noMark : ¬ ['#', '!'] <+: c :: cs := by
    rintro ⟨more, parts⟩
    obtain rfl := (List.cons.inj parts).1
    exact absurd starts (by decide)
  obtain ⟨d, ds, chars, starts'⟩ := gets.beginsName
  have goesOn : ¬EndsLine (word ++ behind) := by
    rw [chars]
    intro ends
    have opens' := opensToken_of_isIdentifierStart starts'
    simp [opensToken, ends d rfl] at opens'
  have reaches : (skipTrivia ⟨offset, gap ++ (word ++ behind)⟩).2.rest = word ++ behind := by
    rw [← Token.first_read, gets.first]
  have skipped := skipTrivia_congr reaches goesOn (fun newline offset => stops newline offset cs)
    fun _ _ => noMark
  rw [Token.newlineBefore_read, Token.read, skipped]

open Grammar in
/-- Where a reader gets over the gap to the old name, a parser of the renamed text binds the new one. -/
theorem bindsAnew {site : BindingSite} {oldName name : String} (isOld : BindingRepair.isIdentifier oldName = true)
    (isName : IsName name) {c : Context} {s : State}
    (here : s.token = Token.read ⟨offset, gap ++ ((Tree.renamedText site oldName name).toList ++ behind)⟩) :
    s.token.start = offset + byteLength gap ∧
      s.token.newlineBefore = (Token.read ⟨offset, gap ++ (word ++ behind)⟩).newlineBefore ∧
      s.BindsAnew c site oldName name
        ⟨offset + byteLength gap + byteLength (Tree.renamedText site oldName name).toList, behind⟩ := by
  obtain ⟨x, xs, text, starts⟩ := (beginsName_renamedText site isOld isName.identifier).append behind
  have reads := reads_renamedWords site isOld isName.identifier gets.stopsName (offset + byteLength gap)
  rw [text_renamedWords] at reads
  have token : s.token = Token.readAt (Token.read ⟨offset, gap ++ (word ++ behind)⟩).newlineBefore
      ⟨offset + byteLength gap, (Tree.renamedText site oldName name).toList ++ behind⟩ := by
    rw [here, text, gets.read_other starts]
  have near : Token.read ⟨offset + byteLength gap, (Tree.renamedText site oldName name).toList ++ behind⟩ =
      Token.readAt false ⟨offset + byteLength gap, (Tree.renamedText site oldName name).toList ++ behind⟩ := by
    rw [text]
    exact Token.read_of_isIdentifierStart starts ..
  have newline := congrArg Token.newlineBefore token
  rw [Token.readAt_newline] at newline
  refine ⟨?_, newline, bindsAnew_of_reads isName reads ?_⟩
  · rw [token, Token.start, Token.first_readAt]
  · rw [near, newline, ← Token.readAt_newline]
    exact token

end GetsToName

/-- What a parsed identifier spells. -/
theorem spells_of_parse {source : String} {dialect : Dialect} {t : Tree} (parsed : parse source dialect = .ok t)
    {id : NodeId} {n : Node} {i : IdentifierNode} (found : t.node? id = some n) (kind : n.kind = .identifier i) :
    i.Spells (Cursor.start source.toList) n.span := by
  obtain ⟨s, finished, rfl⟩ := finished_of_parse parsed
  exact (finished.steps.grown (Grammar.State.grown_initialState source.toList)).spells _ n i found kind

open Grammar in
/-- Renaming a binding of a parsed source changes one word of the text. What ends in front of the old name is read as it
was. Wherever a reader of the source gets to the old name, one of the printed text gets to the same place, and from there
a parser binds the new name and then stands where the source goes on. A property keeps its key, and an import the name of
the export. -/
theorem renamed_names_are_read_back {source : String} {dialect : Dialect} {t : Tree}
    (parsed : parse source dialect = .ok t) {id : NodeId} {i : IdentifierNode} {site : BindingSite}
    (identifier : t.identifier? id = some i) (binds : i.site? = some site) {name : String} (isName : IsName name) :
    ∃ u front word behind text, t.rename id name = .ok u ∧ source.toList = front ++ word ++ behind ∧
      t.spanOf id = ⟨byteLength front, byteLength front + byteLength word⟩ ∧
      text = (Tree.renamedText site i.name name).toList ∧ u.print = .ok (String.ofList (front ++ text ++ behind)) ∧
      ∀ before gap, front = before ++ gap → GetsToName (byteLength before) gap word behind →
        (∀ a b, Cursor.Alike (word ++ behind) (text ++ behind) a b → (Token.read a).EndsBefore (word ++ behind) →
          Token.Alike (word ++ behind) (text ++ behind) (Token.read a) (Token.read b)) ∧
        ∀ (c : Context) (s : State), s.token = Token.read ⟨byteLength before, gap ++ (text ++ behind)⟩ →
          s.token.start = byteLength front ∧
            s.token.newlineBefore = (Token.read ⟨byteLength before, gap ++ (word ++ behind)⟩).newlineBefore ∧
            s.BindsAnew c site i.name name ⟨byteLength front + byteLength text, behind⟩ := by
  obtain ⟨n, found, kind⟩ := Tree.identifier?_eq_some_iff.mp identifier
  obtain ⟨first, last, ⟨front, whole, at'⟩, passes, -, span, named, -⟩ := spells_of_parse parsed found kind
  obtain ⟨word, rest, there⟩ := passes.reaches
  have chars := Cursor.charsTo_of_append rest there
  obtain ⟨offset, firstRest⟩ := first
  obtain ⟨stop, behind⟩ := last
  dsimp only at rest there at' whole span
  subst rest
  rw [Cursor.start, Nat.zero_add] at at'
  subst at'
  subst there
  have source' : source.toList = front ++ word ++ behind := by rw [List.append_assoc]; exact whole
  refine ⟨_, front, word, behind, _, Tree.rename_of_binding identifier (by rw [binds]; rfl) name, source', ?_, rfl,
    ?_, ?_⟩
  · rw [Tree.spanOf, found]
    exact span
  · have same : (t.renamedAt id i.name (i.renamed name)).source = front ++ word ++ behind :=
      (source_of_parse parsed).1.trans source'
    rw [Tree.print, Tree.patches_renamedAt (isPristine_of_parse parsed) (untouched_of_parse parsed) found kind binds,
      same, span, splice_word]
    rfl
  · rintro before gap rfl gets
    have spelled : i.name = String.ofList word := by
      have plain := backslash_not_mem_of_isIdentifier gets.isIdentifier
      rw [String.toList_ofList] at plain
      rw [named, chars, (Spells.refl _).decode plain]
    have isOld : isIdentifier i.name = true := spelled ▸ gets.isIdentifier
    refine ⟨fun a b alike ends => ?_, fun c s here => ?_⟩
    · exact Token.alike_read alike (gets.beginsName.append behind)
        ((beginsName_renamedText site isOld isName.identifier).append behind) ends
    · rw [byteLength_append]
      exact gets.bindsAnew isOld isName here

end BindingRepair.Script
