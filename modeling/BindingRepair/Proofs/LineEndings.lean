/-
# Line endings

Where all lines of a source end with a carriage return and a line feed, so do the lines of what is printed.
Edits end their lines as the first line of the source ends, and no patch ends within a line ending, so what is
copied behind it begins with none of its own.
-/

import BindingRepair.Proofs.EditTexts
import BindingRepair.Proofs.Lexer.Trivia
import BindingRepair.Proofs.Overlaps
import Mathlib.Data.List.Chain

namespace BindingRepair.Script

open Text Cursor

/-- Every line feed stands behind a carriage return. -/
def HasCrLf (text : List Char) : Prop :=
  ∀ before after, text = before ++ '\n' :: after → before.getLast? = some '\r'

theorem hasCrLf_iff {text : List Char} :
    HasCrLf text ↔ text.head? ≠ some '\n' ∧ text.IsChain fun a b => b = '\n' → a = '\r' := by
  rw [List.isChain_iff_forall_rel_of_append_cons_cons]
  constructor
  · intro crLf
    refine ⟨fun feed => ?_, fun a b before after parts feed => ?_⟩
    · obtain ⟨after, rfl⟩ := List.head?_eq_some_iff.mp feed
      cases crLf [] after rfl
    · have last := crLf (before ++ [a]) after (by rw [parts, feed, List.append_assoc]; rfl)
      rwa [List.getLast?_concat, Option.some.injEq] at last
  · rintro ⟨first, pairs⟩ before after rfl
    rcases List.eq_nil_or_concat before with rfl | ⟨front, a, rfl⟩
    · exact absurd rfl first
    · have parts : front.concat a ++ '\n' :: after = front ++ a :: '\n' :: after := by simp
      rw [List.concat_eq_append, List.getLast?_concat, pairs parts rfl]

instance : DecidablePred HasCrLf := fun _ =>
  decidable_of_iff _ hasCrLf_iff.symm

namespace HasCrLf

variable {first second text : List Char}

theorem of_not_mem (none : '\n' ∉ text) : HasCrLf text := by
  rintro before after rfl
  exact absurd (List.mem_append_right _ List.mem_cons_self) none

theorem head (crLf : HasCrLf text) : text.head? ≠ some '\n' :=
  (hasCrLf_iff.mp crLf).1

theorem append (one : HasCrLf first) (two : HasCrLf second) : HasCrLf (first ++ second) := by
  rw [hasCrLf_iff] at one two ⊢
  refine ⟨?_, one.2.append two.2 fun a _ b here feed => ?_⟩
  · cases first with
    | nil => exact two.1
    | cons c cs => exact one.1
  · exact absurd (feed ▸ here) two.1

theorem of_prefix (crLf : HasCrLf (first ++ second)) : HasCrLf first := by
  rintro before after rfl
  exact crLf before (after ++ second) (List.append_assoc ..)

/-- What begins with no line feed is the rest of such a text. -/
theorem of_suffix (crLf : HasCrLf (first ++ second)) (other : second.head? ≠ some '\n') : HasCrLf second :=
  hasCrLf_iff.mpr ⟨other, (hasCrLf_iff.mp crLf).2.right_of_append⟩

end HasCrLf

theorem hasCrLf_empty : HasCrLf "".toList :=
  .of_not_mem List.not_mem_nil

/-- The text holds no line feed. -/
def IsUnbroken (text : String) : Prop :=
  '\n' ∉ text.toList

instance : DecidablePred IsUnbroken := fun text =>
  inferInstanceAs (Decidable ('\n' ∉ text.toList))

namespace IsUnbroken

variable {first second : String}

theorem hasCrLf (unbroken : IsUnbroken first) : HasCrLf first.toList :=
  .of_not_mem unbroken

theorem append (one : IsUnbroken first) (two : IsUnbroken second) : IsUnbroken (first ++ second) := by
  rw [IsUnbroken, String.toList_append, List.mem_append]
  exact not_or.mpr ⟨one, two⟩

theorem intercalate {separator : String} (between : IsUnbroken separator) {texts : List String}
    (each : ∀ text ∈ texts, IsUnbroken text) : IsUnbroken (separator.intercalate texts) := by
  rw [IsUnbroken, String.toList_intercalate]
  induction texts with
  | nil => exact List.not_mem_nil
  | cons text texts ih =>
      obtain ⟨here, others⟩ := List.forall_mem_cons.mp each
      cases texts with
      | nil => exact (List.mem_append.mp · |>.elim here List.not_mem_nil)
      | cons next texts =>
          rw [List.map_cons, List.map_cons, List.intercalate_cons_cons, List.mem_append, List.mem_append]
          exact not_or.mpr ⟨not_or.mpr ⟨here, between⟩, ih others⟩

end IsUnbroken

/-! ### Where texts go -/

/-- A line ending is no place where a text is parted. -/
theorem head_of_splits {source : List Char} {place : Cursor} (crLf : HasCrLf source)
    (splits : (start source).Splits place) : place.rest.head? ≠ some '\n' := by
  intro feed
  obtain ⟨word, c, parts, other⟩ := splits.whole feed
  obtain ⟨after, rest⟩ := List.head?_eq_some_iff.mp feed
  have whole : source = word ++ c :: place.rest := parts
  have last := crLf (word ++ [c]) after (by rw [whole, rest, List.append_assoc]; rfl)
  rw [List.getLast?_concat, Option.some.injEq] at last
  exact other last

namespace Tree

/-- Blanks and comments that end a line end before the line ending. -/
theorem splitsAt_lineTriviaEnd? {origin : Cursor} {inComment : Bool} {offset behind : Nat} {cs : List Char}
    (reaches : origin.Reaches ⟨offset, cs⟩) (splits : inComment = false → origin.Splits ⟨offset, cs⟩)
    (found : lineTriviaEnd? inComment offset cs = some behind) : origin.SplitsAt behind := by
  fun_induction lineTriviaEnd? inComment offset cs with
  | case1 => cases found
  | case2 _ _ outside => exact Option.some.inj found ▸ (splits (Bool.eq_false_iff.mpr outside)).at_offset
  | case3 offset rest ih =>
      have star : origin.Reaches ⟨offset + 1, '/' :: rest⟩ := reaches.trans (reaches_cons offset '*' _)
      have slash : origin.Splits ⟨offset + 2, rest⟩ := star.trans_splits (splits_cons _ rest (by decide))
      exact ih slash.reaches (fun _ => slash) found
  | case4 => cases found
  | case5 offset c rest _ _ ih => exact ih (reaches.trans (reaches_cons ..)) (absurd · Bool.noConfusion) found
  | case6 _ offset _ rest =>
      have slash : origin.Reaches ⟨offset + 1, '/' :: rest⟩ := reaches.trans (reaches_cons offset '/' _)
      have second : origin.Splits ⟨offset + 2, rest⟩ := slash.trans_splits (splits_cons _ rest (by decide))
      rw [← Option.some.inj found]
      exact (second.skipWhile rfl).at_offset
  | case7 _ offset _ rest ih =>
      exact ih (reaches.trans ⟨['/', '*'], rfl, rfl⟩) (absurd · Bool.noConfusion) found
  | case8 _ offset _ c rest _ _ blank ih =>
      have next : origin.Splits ⟨offset + 1, rest⟩ := by
        simp only [Bool.or_eq_true, beq_iff_eq] at blank
        rcases blank with rfl | rfl
        · exact reaches.trans_splits (splits_cons offset rest (by decide))
        · exact reaches.trans_splits (splits_cons offset rest (by decide))
      exact ih next.reaches (fun _ => next) found
  | case9 _ _ outside => exact Option.some.inj found ▸ (splits (Bool.eq_false_iff.mpr outside)).at_offset
  | case10 => cases found

variable {t u : Tree}

theorem splitsAt_endOfLineTrivia {offset : Nat} (splits : (start t.source).SplitsAt offset) :
    (start t.source).SplitsAt (t.endOfLineTrivia offset) := by
  obtain ⟨place, splits, rfl⟩ := splits
  unfold endOfLineTrivia
  rw [cursorAt_offset splits.reaches]
  cases found : lineTriviaEnd? false place.offset place.rest with
  | none => exact splits.at_offset
  | some behind => exact splitsAt_lineTriviaEnd? splits.reaches (fun _ => splits) found

/-- Wherever an edit puts a text, it parts no line ending. -/
theorem IsLaidOut.welcomes_splitsAt (laidOut : t.IsLaidOut) (crLf : HasCrLf t.source) :
    t.Welcomes (start t.source).SplitsAt where
  start := ⟨_, (Reaches.refl _).splits crLf.head, rfl⟩
  declaration i n f found kind body here := by
    obtain ⟨place, passes, splits, anchor, first, -⟩ := laidOut.bodies i n found body (by rw [kind]; exact here)
    have atAnchor : (Cursor.start t.source).SplitsAt body.anchor := anchor ▸ splits.at_offset
    refine declarationPlace_cases atAnchor (splitsAt_endOfLineTrivia atAnchor) fun o here => ?_
    rw [first o here]
    exact (splits_skipTrivia passes.reaches).at_offset
  behindImport i n node found kind _ := splitsAt_endOfLineTrivia (laidOut.imports i n node found kind).splits
  directivesEnd o ends := by
    obtain ⟨place, -, splits, rfl, -⟩ := ends
    exact splitsAt_endOfLineTrivia splits.at_offset
  hashbangEnd o ends := by
    obtain ⟨begins, rfl⟩ := eq_of_mem_hashbangEnd? ends
    obtain ⟨more, parts⟩ := List.isPrefixOf_iff_prefix.mp (Bool.and_eq_true_iff.mp begins).2
    have here : (Cursor.start t.source).rest = '#' :: '!' :: more := parts.symm
    apply splitsAt_endOfLineTrivia
    rw [skipWhile_of_head here rfl]
    exact ((splits_next here (by decide)).skipWhile rfl).at_offset

/-! ### What is written -/

theorem isSome_after? {a b : Char} (offset : Nat) (before after : List Char) :
    (Cursor.after?.go a b offset (before ++ a :: b :: after)).isSome = true := by
  induction before generalizing offset with
  | nil => simp [Cursor.after?.go]
  | cons c cs ih =>
      obtain ⟨d, ds, parts⟩ : ∃ d ds, cs ++ a :: b :: after = d :: ds := List.exists_cons_of_ne_nil (by simp)
      specialize ih (offset + c.utf8Size)
      rw [List.cons_append, parts, Cursor.after?.go]
      rw [parts] at ih
      split
      · rfl
      · exact ih

theorem newline_of_hasCrLf (crLf : HasCrLf t.source) (feeds : '\n' ∈ t.source) : t.newline = "\r\n" := by
  obtain ⟨before, after, parts⟩ := List.append_of_mem feeds
  obtain ⟨front, rfl⟩ := List.getLast?_eq_some_iff.mp (crLf before after parts)
  have whole : t.source = front ++ '\r' :: '\n' :: after := by rw [parts, List.append_assoc]; rfl
  rw [newline, Cursor.after?, Cursor.start, whole, if_pos (isSome_after? ..)]

theorem isUnbroken_indent (lines : LineTable) (text : List Char) (offset : Nat) :
    IsUnbroken (String.ofList (lines.indentAt text offset)) := by
  intro here
  rw [String.toList_ofList] at here
  rcases mem_indentAt here with is | is
  · cases is
  · cases is

/-- The lines that edits have written end with a carriage return and a line feed. -/
def AlignsLines (u : Tree) : Prop :=
  ∀ i ∈ u.insertions, HasCrLf i.lead.toList ∧ HasCrLf i.trail.toList

section Written

variable (newline : u.newline = "\r\n")
include newline

theorem hasCrLf_newline : HasCrLf u.newline.toList := by
  rw [newline]
  decide

theorem hasCrLf_of_breaksLine {text : String} (breaks : u.BreaksLine text) : HasCrLf text.toList := by
  obtain ⟨indent, rfl, indents⟩ := breaks
  rw [String.toList_append, String.toList_ofList]
  refine (hasCrLf_newline newline).append (.of_not_mem fun here => ?_)
  rcases indents _ here with is | is
  · cases is
  · cases is

theorem hasCrLf_declarationPlace (body : FunctionBody) :
    HasCrLf (u.declarationPlace body).2.1.toList ∧ HasCrLf (u.declarationPlace body).2.2.toList := by
  obtain ⟨lead, none | trail⟩ := u.breaksLine_declarationPlace body
  · exact ⟨hasCrLf_of_breaksLine newline lead, none ▸ hasCrLf_empty⟩
  · exact ⟨hasCrLf_of_breaksLine newline lead, hasCrLf_of_breaksLine newline trail⟩

theorem hasCrLf_importPlace : HasCrLf u.importPlace.2.1.toList ∧ HasCrLf u.importPlace.2.2.toList := by
  have line := hasCrLf_newline newline
  unfold importPlace
  cases u.leadingImportsEnd? with
  | some offset => exact ⟨line, hasCrLf_empty⟩
  | none =>
      cases u.prologueEnd? with
      | some offset => exact ⟨line, hasCrLf_empty⟩
      | none => exact ⟨hasCrLf_empty, line⟩

end Written

theorem SameText.newline {t u : Tree} (same : t.SameText u) : u.newline = t.newline := by
  rw [Tree.newline, Tree.newline, same.source]

/-- What stands behind the declarations at one offset is handed on. -/
theorem hasCrLf_foldl_trail {insertions : List Insertion} (aligned : ∀ i ∈ insertions, HasCrLf i.trail.toList)
    {trail : String} (here : HasCrLf trail.toList) :
    HasCrLf (insertions.foldl (fun trail i => if trail.isEmpty then i.trail else trail) trail).toList := by
  induction insertions generalizing trail with
  | nil => exact here
  | cons i insertions ih =>
      obtain ⟨first, others⟩ := List.forall_mem_cons.mp aligned
      rw [List.foldl_cons]
      apply ih others
      split
      · exact first
      · exact here

namespace AlignsLines

variable (aligned : u.AlignsLines) (newline : u.newline = "\r\n")
include aligned newline

theorem placeDeclaration (body : FunctionBody) (id : NodeId) : (u.placeDeclaration body id).AlignsLines := by
  have place := hasCrLf_declarationPlace newline body
  unfold Tree.placeDeclaration
  generalize u.declarationPlace body = there at place ⊢
  intro i here
  rcases List.mem_append.mp here with old | new
  · obtain ⟨j, listed, rfl⟩ := List.mem_map.mp old
    split
    · exact ⟨(aligned j listed).1, hasCrLf_empty⟩
    · exact aligned j listed
  · rw [List.mem_singleton.mp new]
    exact ⟨place.1, hasCrLf_foldl_trail (fun j joins => (aligned j (List.mem_filter.mp joins).1).2) place.2⟩

omit aligned newline in
/-- A new declaration, whose names have been added, is placed. -/
theorem synthesize (aligned : u.AlignsLines) (newline : u.newline = "\r\n") {v : Tree} (same : u.SameText v)
    (insertions : v.insertions = u.insertions) (id : NodeId) (d : SynthesizedDeclaration) (body : FunctionBody) :
    (v.synthesize id d body).AlignsLines := by
  have text : u.SameText (v.modifyNode id fun n => { n with kind := .synthesized d }) := same.trans ⟨rfl, rfl, rfl⟩
  refine placeDeclaration ?_ (text.newline.trans newline) body id
  intro i here
  exact aligned i (insertions ▸ here)

/-- An edit ends its lines like the source. -/
theorem edit (e : Edit) : (u.edit e).AlignsLines := by
  refine edit_cases (motive := fun _ v => v.AlignsLines) u (fun _ => aligned) ?_ ?_ ?_ ?_ ?_ e
  · intro id name v edited
    obtain ⟨i, -, -, rfl⟩ := rename_eq edited
    exact aligned
  · intro p names v edited
    obtain ⟨-, -, -, rfl⟩ := addImportNames_eq edited
    rwa [AlignsLines, insertions_foldl_addImportedName]
  · intro module names
    rw [insertImport_eq, AlignsLines, insertions_foldl_addImportedName]
    intro i here
    rcases List.mem_append.mp here with old | new
    · exact aligned i old
    · rw [List.mem_singleton.mp new]
      exact hasCrLf_importPlace newline
  · intro function value setter callee id v edited
    obtain ⟨body, -, -, rfl⟩ := declareState_eq edited
    have places := ((u.keepsPlaces_addNode .statement function body.scope (body.opening + 1)).trans
      (keepsPlaces_addBinding _ ⟨u.size⟩ body.scope value .const)).trans
      (keepsPlaces_addBinding _ ⟨u.size⟩ body.scope setter .const)
    exact aligned.synthesize newline places.text rfl _ _ body
  · intro function name id v edited
    obtain ⟨body, -, -, rfl⟩ := declareNull_eq edited
    have places := (u.keepsPlaces_addNode .statement function body.scope (body.opening + 1)).trans
      (keepsPlaces_addBinding _ ⟨u.size⟩ body.scope name .let)
    exact aligned.synthesize newline places.text rfl _ _ body

end AlignsLines

theorem IsPristine.alignsLines_editAll (pristine : t.IsPristine) (newline : t.newline = "\r\n") (edits : List Edit) :
    (t.editAll edits).AlignsLines := by
  refine (editAll_induction (motive := fun u => t.SameText u ∧ u.AlignsLines) ⟨.refl t, ?_⟩ (fun u e both => ?_) edits).2
  · intro i here
    rw [pristine.insertions] at here
    cases here
  · exact ⟨both.1.trans (u.keepsPlaces_edit e).text, both.2.edit (both.1.newline.trans newline) e⟩

/-! ### Texts of patches -/

theorem isUnbroken_bracedNames {names : List String} (each : ∀ name ∈ names, IsUnbroken name) :
    IsUnbroken (bracedNames names) := by
  have front : IsUnbroken "\x7b " := by decide
  have between : IsUnbroken ", " := by decide
  have behind : IsUnbroken " \x7d" := by decide
  exact (front.append (between.intercalate each)).append behind

theorem hasCrLf_specifiersText (newline : u.newline = "\r\n") (opening : Nat) (last : ImportSpecifier)
    {names : List String} (each : ∀ name ∈ names, IsUnbroken name) :
    HasCrLf (u.specifiersText opening last names).toList := by
  -- Each name stands behind the same separator, whichever that is.
  have listed (separator : String) (aligned : HasCrLf separator.toList) :
      HasCrLf (String.join (names.map (separator ++ ·))).toList := by
    rw [String.toList_join]
    induction names with
    | nil => exact hasCrLf_empty
    | cons name names ih =>
        obtain ⟨first, others⟩ := List.forall_mem_cons.mp each
        rw [List.map_cons, List.flatMap_cons, String.toList_append]
        exact (aligned.append first.hasCrLf).append (ih others)
  apply listed
  split
  · decide
  · have comma : IsUnbroken "," := by decide
    rw [String.toList_append, String.toList_append]
    exact (comma.hasCrLf.append (hasCrLf_newline newline)).append (isUnbroken_indent _ _ _).hasCrLf

theorem hasCrLf_importPatch? (newline : u.newline = "\r\n") {id : NodeId} {i : ImportNode}
    (each : ∀ name ∈ u.addedNames i, IsUnbroken name) {p : Patch} (due : u.importPatch? id i = some p) :
    HasCrLf p.text.toList := by
  obtain ⟨-, ⟨-, -, -, -, rfl⟩ | ⟨-, -, -, rfl⟩ | ⟨-, -, -, rfl⟩⟩ := importPatch?_cases due
  · exact hasCrLf_specifiersText newline _ _ each
  · exact (isUnbroken_bracedNames each).hasCrLf
  · have comma : IsUnbroken ", " := by decide
    exact (comma.append (isUnbroken_bracedNames each)).hasCrLf

/-- The names that renamed bindings had and that are written in front of the new ones. -/
def repeatedNames (u : Tree) : List String :=
  u.nodes.toList.filterMap fun n =>
    match n.kind with
    | .identifier i => do
      let oldName ← i.renamedFrom
      let site ← i.site?
      if site.shorthand || site.unaliased then some oldName else none
    | _ => none

theorem hasCrLf_renamePatch? {id : NodeId} {n : Node} (found : u.node? id = some n) {p : Patch}
    (due : renamePatch? n = some p) (name : ∀ i, n.kind = .identifier i → IsUnbroken i.name)
    (aligned : ∀ name ∈ u.repeatedNames, HasCrLf name.toList) : HasCrLf p.text.toList := by
  obtain ⟨i, oldName, site, kind, renamed, binds, -, -, rfl⟩ := renamePatch?_eq_some_iff.mp due
  have new := (name i kind).hasCrLf
  have old (twice : (site.shorthand || site.unaliased) = true) : HasCrLf oldName.toList := by
    refine aligned oldName (List.mem_filterMap.mpr ⟨n, ?_, ?_⟩)
    · exact Array.mem_toList_iff.mpr (Array.mem_of_getElem? found)
    · simp only [kind, renamed, binds, Option.bind_eq_bind, Option.bind_some, if_pos twice]
  dsimp only
  unfold renamedText
  split
  · rename_i shorthand
    have colon : IsUnbroken ": " := by decide
    rw [String.toList_append, String.toList_append]
    exact ((old (by rw [shorthand]; rfl)).append colon.hasCrLf).append new
  · split
    · rename_i unaliased
      have as : IsUnbroken " as " := by decide
      rw [String.toList_append, String.toList_append]
      exact ((old (by rw [unaliased, Bool.or_true])).append as.hasCrLf).append new
    · exact new

theorem isUnbroken_synthesizedText (quote : u.style.quote ≠ '\n') {id : NodeId} {kind : NodeKind}
    (found : u.kind? id = some kind) (texts : ∀ text ∈ kind.texts, IsUnbroken text)
    (names : ∀ other ∈ kind.named, ∀ name, u.name? other = some name → IsUnbroken name) :
    IsUnbroken (u.synthesizedText id) := by
  have semicolon : IsUnbroken (if u.style.semicolons then ";" else "") := by split <;> decide
  have name {other : NodeId} (here : other ∈ kind.named) : IsUnbroken ((u.name? other).getD "") := by
    cases named : u.name? other with
    | none => exact List.not_mem_nil
    | some name => exact names other here name named
  unfold synthesizedText
  rw [found]
  cases kind with
  | importDeclaration i =>
      have front : IsUnbroken "import " := by decide
      have from' : IsUnbroken " from " := by decide
      have mark : IsUnbroken u.style.quote.toString := by
        rw [IsUnbroken, Char.toString_eq_singleton, String.toList_singleton, List.mem_singleton]
        exact Ne.symm quote
      have braces : IsUnbroken (bracedNames (u.addedNames i)) := by
        refine isUnbroken_bracedNames fun name listed => ?_
        obtain ⟨other, here, named⟩ := List.mem_filterMap.mp listed
        exact names other (List.mem_append_right _ here) name named
      have source := texts i.source List.mem_cons_self
      exact (((((front.append braces).append from').append mark).append source).append mark).append semicolon
  | synthesized d =>
      cases d with
      | state value setter callee =>
          have front : IsUnbroken "const [" := by decide
          have comma : IsUnbroken ", " := by decide
          have equals : IsUnbroken "] = " := by decide
          have call : IsUnbroken "(null)" := by decide
          have one := name List.mem_cons_self
          have two := name (List.mem_cons_of_mem _ List.mem_cons_self)
          have primitive := texts callee List.mem_cons_self
          exact ((((((front.append one).append comma).append two).append equals).append primitive).append call).append
            semicolon
      | null value =>
          have front : IsUnbroken "let " := by decide
          have behind : IsUnbroken " = null" := by decide
          exact ((front.append (name List.mem_cons_self)).append behind).append semicolon
  | _ => exact List.not_mem_nil

/-- Whatever is written ends its lines like the source. -/
theorem Descends.hasCrLf_text (descends : t.Descends u) (pristine : t.IsPristine)
    (writes : t.WritesOnly IsUnbroken u) (newline : u.newline = "\r\n") (quote : u.style.quote ≠ '\n')
    (aligned : u.AlignsLines) (repeated : ∀ name ∈ u.repeatedNames, HasCrLf name.toList)
    {entry : Patch × List NodeId} (here : entry ∈ u.renamings ++ u.additions ++ u.declarations) :
    HasCrLf entry.1.text.toList := by
  have names {id : NodeId} (listed : id ∈ entry.2) {name : String} (named : u.name? id = some name) : IsUnbroken name :=
    writes.name_of_patch descends pristine here listed named
  rcases List.mem_append.mp here with front | inserted
  · rcases List.mem_append.mp front with renamed | extended
    · obtain ⟨⟨n, index⟩, listed, labels⟩ := List.mem_filterMap.mp renamed
      obtain ⟨p, due, rfl⟩ := Option.map_eq_some_iff.mp labels
      rw [List.mem_zipIdx_iff_getElem?, Array.getElem?_toList] at listed
      have found : u.node? ⟨index⟩ = some n := listed
      refine hasCrLf_renamePatch? found due (fun i kind => names List.mem_cons_self ?_) repeated
      rw [name?, identifier?_eq_some_iff.mpr ⟨n, found, kind⟩]
      rfl
    · obtain ⟨⟨id, i⟩, -, labels⟩ := List.mem_filterMap.mp extended
      obtain ⟨p, due, rfl⟩ := Option.map_eq_some_iff.mp labels
      refine hasCrLf_importPatch? newline (fun name listed => ?_) due
      obtain ⟨other, added, named⟩ := List.mem_filterMap.mp listed
      exact names added named
  · obtain ⟨i, listed, rfl⟩ := List.mem_map.mp inserted
    obtain ⟨outside, kind, found, -⟩ := descends.declared i listed
    have text : IsUnbroken (u.synthesizedText i.node) := by
      refine isUnbroken_synthesizedText quote found (writes i.node kind found (.inl outside)) fun other inner name named => ?_
      refine names (List.mem_cons_of_mem _ ?_) named
      rwa [namedBy, found]
    have line := aligned i listed
    rw [show (u.insertionPatch i).text = i.lead ++ u.synthesizedText i.node ++ i.trail from rfl,
      String.toList_append, String.toList_append]
    exact (line.1.append text.hasCrLf).append line.2

/-! ### Where patches end -/

theorem IsPristine.splitsAt_of_endsName (pristine : t.IsPristine) {id : NodeId} {stop : Nat}
    (ends : EndsName t.nodes id stop) : (start t.source).SplitsAt stop := by
  obtain ⟨n, found, identifier, rfl⟩ := ends
  exact pristine.splits id n found identifier

/-- No patch ends within a line ending. -/
theorem IsLaidOut.splitsAt_stop (laidOut : t.IsLaidOut) (pristine : t.IsPristine)
    (placed : ∀ i ∈ u.insertions, (start t.source).SplitsAt i.offset) {p : Patch} {nodes : List NodeId}
    (records : p.Records t u nodes) : (start t.source).SplitsAt p.span.stop := by
  cases records with
  | renamed id i j site was now binds span =>
      obtain ⟨n, found, kind⟩ := identifier?_eq_some_iff.mp was
      rw [span, spanOf, found]
      exact pristine.splits id n found (by rw [kind]; rfl)
  | specifiers id i added named last was now braces behind span =>
      obtain ⟨n, found, kind, -⟩ := laidOut.exists_of_mem_imports was
      have fits := (laidOut.imports _ n i found kind).named named braces
      rw [span]
      exact pristine.splitsAt_of_endsName (fits.specifiers last (List.mem_of_getLast? behind))
  | braces id i added named was now braces none span =>
      have placed := pristine.placed id _ (import?_eq_some_iff.mp (mem_imports.mp was).2) named braces
      rw [span]
      exact placed.closing
  | clause id i added name was now bare default span =>
      obtain ⟨n, found, kind, -⟩ := laidOut.exists_of_mem_imports was
      obtain ⟨stop, ends⟩ := (laidOut.imports _ n i found kind).defaultName name default
      have same : (t.spanOf name).stop = stop := by
        obtain ⟨m, there, -, rfl⟩ := ends
        have isNode : t.node? name = some m := there
        rw [spanOf, isNode]
        rfl
      rw [span, same]
      exact pristine.splitsAt_of_endsName ends
  | declaration i listed new span =>
      rw [span]
      exact placed i listed

end Tree

/-! ### What is printed -/

/-- If no piece ends within a line ending, what becomes of the text ends its lines in the same way. -/
theorem hasCrLf_flatMap_after {pieces : List Piece} {last : List Char}
    (crLf : HasCrLf (pieces.flatMap Piece.before ++ last)) (texts : ∀ p ∈ pieces, HasCrLf p.text.toList)
    (stops : ∀ front p behind, pieces = front ++ p :: behind →
      (behind.flatMap Piece.before ++ last).head? ≠ some '\n') : HasCrLf (pieces.flatMap Piece.after ++ last) := by
  induction pieces with
  | nil => exact crLf
  | cons p pieces ih =>
      obtain ⟨text, others⟩ := List.forall_mem_cons.mp texts
      rw [List.flatMap_cons, Piece.before, List.append_assoc] at crLf
      have rest := crLf.of_suffix (stops [] p pieces rfl)
      rw [List.flatMap_cons, Piece.after, List.append_assoc]
      refine (crLf.of_prefix.of_prefix.append text).append (ih rest others fun front q behind parts => ?_)
      exact stops (p :: front) q behind (by rw [parts, List.cons_append])

theorem IsCut.hasCrLf {source out last : List Char} {pieces : List Piece} (cut : IsCut (Cursor.start source) pieces last out)
    (crLf : HasCrLf source) (stops : ∀ p ∈ pieces, (Cursor.start source).SplitsAt p.span.stop)
    (texts : ∀ p ∈ pieces, HasCrLf p.text.toList) : HasCrLf out := by
  have whole : source = pieces.flatMap Piece.before ++ last := cut.source
  rw [cut.printed]
  refine hasCrLf_flatMap_after (whole ▸ crLf) texts fun front p behind parts => ?_
  obtain ⟨stop, splits, there⟩ := stops p (parts ▸ List.mem_append_right _ List.mem_cons_self)
  obtain rfl := splits.reaches.eq_of_offset (cut.reaches_stop parts) there
  exact head_of_splits crLf splits

/-- Lines that end with a carriage return and a line feed stay so. Where each line feed of a source stands behind a
carriage return, and there is one, the same holds of whatever is printed after edits whose texts are free of line feeds.
Old names that are repeated in front of new ones are texts too: those that were written with an escaped line feed are
excepted. -/
theorem crLf_stays_crLf {source : String} {dialect : Dialect} {t : Tree} (parsed : parse source dialect = .ok t)
    (feeds : '\n' ∈ source.toList) (crLf : HasCrLf source.toList) {edits : List Edit}
    (unbroken : ∀ e ∈ edits, ∀ text ∈ e.texts, IsUnbroken text)
    (repeated : ∀ name ∈ (t.editAll edits).repeatedNames, HasCrLf name.toList) {out : String}
    (printed : (t.editAll edits).print = .ok out) : HasCrLf out.toList := by
  have pristine := isPristine_of_parse parsed
  have laidOut := isLaidOut_of_parse parsed
  have descends := pristine.descends_editAll edits
  rw [← (source_of_parse parsed).1] at feeds crLf
  have newline := Tree.newline_of_hasCrLf crLf feeds
  have quote : (t.editAll edits).style.quote ≠ '\n' := by
    rw [descends.places.text.style]
    rcases quote_of_parse parsed with single | double
    · rw [single]
      decide
    · rw [double]
      decide
  have placed := pristine.offset_of_mem_editAll laidOut (laidOut.welcomes_splitsAt crLf) edits
  have writes := (pristine.writesOnly IsUnbroken).editAll unbroken
  obtain ⟨pieces, last, cut, perm⟩ := descends.exists_isCut pristine printed
  refine cut.hasCrLf crLf (fun p here => ?_) fun p here => ?_
  · have listed := perm.mem_iff.mp (List.mem_map_of_mem here)
    exact laidOut.splitsAt_stop pristine placed (descends.records_of_mem pristine listed)
  · have listed := perm.mem_iff.mp (List.mem_map_of_mem here)
    exact descends.hasCrLf_text pristine writes (descends.places.text.newline.trans newline) quote
      (pristine.alignsLines_editAll newline edits) repeated listed

/-- A first line with a hash, a directive with a comment, braces on several lines and a body on one. -/
def crLfSource : String :=
  "#!/usr/bin/env node\r\n'use strict'; // on\r\nimport \x7b\r\n  a,\r\n  b\r\n\x7d from 'm';\r\n" ++
    "function f(\x7b c \x7d) \x7b return c \x7d\r\n"

/-- An edit of each kind. -/
def crLfEdits : List Edit :=
  [.insertImport "n" ["e"], .declareState ⟨5⟩ "x" "setX" "useState", .addImportNames ⟨2⟩ ["d"], .rename ⟨7⟩ "z",
    .declareNull ⟨5⟩ "y"]

set_option maxRecDepth 100000 in
theorem crLf_source_stays_crLf : '\n' ∈ crLfSource.toList ∧ HasCrLf crLfSource.toList ∧
    (∀ e ∈ crLfEdits, ∀ text ∈ e.texts, IsUnbroken text) ∧ ∃ t, parse crLfSource .javascript = .ok t ∧
      (t.editAll crLfEdits).repeatedNames = ["c"] ∧ HasCrLf "c".toList ∧
      ∃ out, (t.editAll crLfEdits).print = .ok out ∧ HasCrLf out.toList := by
  have plain : HasPlainLines crLfSource.toList := by decide +kernel
  have feeds : '\n' ∈ crLfSource.toList := by decide +kernel
  have crLf : HasCrLf crLfSource.toList := by decide +kernel
  have unbroken : ∀ e ∈ crLfEdits, ∀ text ∈ e.texts, IsUnbroken text := by decide
  have name : HasCrLf "c".toList := by decide
  obtain ⟨t, parsed, test⟩ := exists_ok_of_test (parse crLfSource .javascript)
    (fun t => (t.editAll crLfEdits).repeatedNames == ["c"]) (by decide +kernel)
  have repeated : (t.editAll crLfEdits).repeatedNames = ["c"] := beq_iff_eq.mp test
  have pristine := isPristine_of_parse parsed
  have laidOut := isLaidOut_of_parse parsed
  rw [← (source_of_parse parsed).1] at plain
  have placed := pristine.placesIn_editAll laidOut plain crLfEdits
  obtain ⟨out, -, printed⟩ := (pristine.descends_editAll crLfEdits).exists_print pristine laidOut placed
  refine ⟨feeds, crLf, unbroken, t, parsed, repeated, name, String.ofList out, printed, ?_⟩
  refine crLf_stays_crLf parsed feeds crLf unbroken ?_ printed
  rw [repeated]
  exact List.forall_mem_singleton.mpr name

/-- A name may be written with an escaped line feed. As the key of a property it is printed unescaped. -/
theorem escaped_line_feed_is_printed : '\n' ∈ "const \x7b \\u\x7ba\x7dx \x7d = o\r\n".toList ∧
    HasCrLf "const \x7b \\u\x7ba\x7dx \x7d = o\r\n".toList ∧ IsUnbroken "y" ∧
    ∃ t, parse "const \x7b \\u\x7ba\x7dx \x7d = o\r\n" .javascript = .ok t ∧
      (t.editAll [.rename ⟨3⟩ "y"]).print = .ok "const \x7b \nx: y \x7d = o\r\n" ∧
      ¬HasCrLf "const \x7b \nx: y \x7d = o\r\n".toList := by
  obtain ⟨t, parsed, test⟩ := exists_ok_of_test (parse "const \x7b \\u\x7ba\x7dx \x7d = o\r\n" .javascript)
    (fun t => decide ((t.editAll [.rename ⟨3⟩ "y"]).allPatches.Pairwise fun a b => a.precedes b = true) &&
      match splice 0 (t.editAll [.rename ⟨3⟩ "y"]).source (t.editAll [.rename ⟨3⟩ "y"]).allPatches with
      | .ok out => out == "const \x7b \nx: y \x7d = o\r\n".toList
      | .error _ => false) (by decide +kernel)
  rw [Bool.and_eq_true, decide_eq_true_eq] at test
  obtain ⟨sorted, result⟩ := test
  split at result
  · rename_i out spliced
    have printed := Tree.print_of_pairwise sorted spliced
    rw [beq_iff_eq.mp result, String.ofList_toList] at printed
    exact ⟨by decide, by decide, by decide, t, parsed, printed, by decide⟩
  · cases result

end BindingRepair.Script
