/-
# Declarations at the top of a body

Declarations are inserted into a body one by one, with other edits in between. All of them go to one offset, where
nothing else goes. They are printed there in the order of the edits, each behind the same line break, and behind the
last of them stands what parts them from the rest of the body.
-/

import BindingRepair.Proofs.Blocks
import BindingRepair.Proofs.Printing

namespace BindingRepair.Script

open Text Cursor

/-! ### What is declared -/

namespace BodyDeclaration

/-- The declaration as it is written. -/
def text (semicolons : Bool) (d : BodyDeclaration) : String :=
  (match d with
  | .state value setter callee => "const [" ++ value ++ ", " ++ setter ++ "] = " ++ callee ++ "(null)"
  | .null name => "let " ++ name ++ " = null") ++ if semicolons then ";" else ""

/-- A new name for a binding, which may be one of those of a declaration: the nodes behind its own. -/
def renamed (own id : NodeId) (name : String) : BodyDeclaration → BodyDeclaration
  | .state value setter callee =>
    .state (if ⟨own.index + 1⟩ = id then name else value) (if ⟨own.index + 2⟩ = id then name else setter) callee
  | .null old => .null (if ⟨own.index + 1⟩ = id then name else old)

/-- No name of a declaration is that of a node before it. -/
theorem renamed_of_lt {own id : NodeId} (before : id.index < own.index) (name : String) (d : BodyDeclaration) :
    d.renamed own id name = d := by
  have other (k : Nat) : (⟨own.index + k⟩ : NodeId) ≠ id := by
    rintro rfl
    exact Nat.not_lt.mpr (Nat.le_add_right own.index k) before
  cases d with
  | state value setter callee => rw [renamed, if_neg (other 1), if_neg (other 2)]
  | null old => rw [renamed, if_neg (other 1)]

theorem text_sentence (lead : String) (semicolons : Bool) (d : BodyDeclaration) :
    (d.sentence lead.toList semicolons).text = (lead ++ d.text semicolons).toList := by
  cases d with
  | state value setter callee =>
      cases semicolons with
      | true => simp [text, sentence, phrase, Phrase.text, Word.text]
      | false => simp [text, sentence, phrase, Phrase.text, Word.text]
  | null name =>
      cases semicolons with
      | true => simp [text, sentence, phrase, Phrase.text, Word.text]
      | false => simp [text, sentence, phrase, Phrase.text, Word.text]

theorem text_sentences (lead : String) (semicolons : Bool) (ds : List BodyDeclaration) :
    (sentences lead.toList semicolons ds).text = ds.flatMap fun d => (lead ++ d.text semicolons).toList := by
  induction ds with
  | nil => rfl
  | cons d ds ih =>
      rw [List.flatMap_cons, ← ih, ← text_sentence, ← Phrase.text_append]
      rfl

end BodyDeclaration

/-- The declaration that an edit makes in the body of a function. -/
def Edit.declaration? (function : NodeId) : Edit → Option BodyDeclaration
  | declareState f value setter callee => if f = function then some (.state value setter callee) else none
  | declareNull f name => if f = function then some (.null name) else none
  | _ => none

/-- The declarations in the body of a function after an edit: one more, whose node is the next, or those before with
the names that they have then. -/
def Edit.declarations (function next : NodeId) (before : List (NodeId × BodyDeclaration)) :
    Edit → List (NodeId × BodyDeclaration)
  | declareState f value setter callee =>
    if f = function then before ++ [(next, .state value setter callee)] else before
  | declareNull f name => if f = function then before ++ [(next, .null name)] else before
  | rename id name => before.map fun d => (d.1, d.2.renamed d.1 id name)
  | addImportNames _ _ => before
  | insertImport _ _ => before

/-- An edit that changes none of their names adds what it declares. -/
theorem Edit.declarations_eq {function next : NodeId} {size : Nat} {before : List (NodeId × BodyDeclaration)} {e : Edit}
    (kept : ∀ id name, e = .rename id name → id.index < size) (new : ∀ d ∈ before, size ≤ d.1.index) :
    e.declarations function next before = before ++ (e.declaration? function).toList.map (next, ·) := by
  cases e with
  | rename id name =>
      have same (d : NodeId × BodyDeclaration) (here : d ∈ before) : (d.1, d.2.renamed d.1 id name) = d := by
        rw [BodyDeclaration.renamed_of_lt (Nat.lt_of_lt_of_le (kept id name rfl) (new d here))]
      exact (List.map_congr_left same).trans ((List.map_id' before).trans (List.append_nil _).symm)
  | addImportNames p names => exact (List.append_nil _).symm
  | insertImport module names => exact (List.append_nil _).symm
  | declareState f value setter callee =>
      dsimp only [declarations, declaration?]
      split
      · rfl
      · exact (List.append_nil _).symm
  | declareNull f name =>
      dsimp only [declarations, declaration?]
      split
      · rfl
      · exact (List.append_nil _).symm

namespace Tree

/-- The declarations in the body of a function after edits, in their order, with their nodes. -/
def declarationsIn (function : NodeId) (t : Tree) (before : List (NodeId × BodyDeclaration)) :
    List Edit → List (NodeId × BodyDeclaration)
  | [] => before
  | e :: edits => (t.edit e).declarationsIn function (e.declarations function ⟨t.size⟩ before) edits

variable {t u v : Tree}

/-- If none of their names is changed, they are those that the edits make. -/
theorem declarationsIn_eq {function : NodeId} {size : Nat} {before : List (NodeId × BodyDeclaration)}
    {edits : List Edit} (kept : ∀ id name, Edit.rename id name ∈ edits → id.index < size)
    (new : ∀ d ∈ before, size ≤ d.1.index) (known : size ≤ u.size) :
    (u.declarationsIn function before edits).map (·.2) =
      before.map (·.2) ++ edits.filterMap (·.declaration? function) := by
  induction edits generalizing u before with
  | nil => exact (List.append_nil _).symm
  | cons e edits ih =>
      have later (id : NodeId) (name : String) (here : Edit.rename id name ∈ edits) : id.index < size :=
        kept id name (List.mem_cons_of_mem e here)
      have parts : e.declarations function ⟨u.size⟩ before =
          before ++ (e.declaration? function).toList.map ((⟨u.size⟩ : NodeId), ·) :=
        Edit.declarations_eq (fun id name same => kept id name (same ▸ List.mem_cons_self)) new
      have joined : ∀ d ∈ e.declarations function ⟨u.size⟩ before, size ≤ d.1.index := by
        rw [parts, List.forall_mem_append]
        refine ⟨new, fun d here => ?_⟩
        obtain ⟨-, -, rfl⟩ := List.mem_map.mp here
        exact known
      rw [declarationsIn, ih later joined (known.trans (u.keepsPlaces_edit e).size_le), parts]
      cases made : e.declaration? function with
      | none => simp [made]
      | some d => simp [made]

/-! ### Where they go -/

/-- Where the declarations in a body go, what stands in front of each of them, and what stands behind the last. -/
inductive Placement (t : Tree) (body : FunctionBody) : Nat → String → String → Prop
  /-- The body begins on a new line. They go to the end of the line before, indented like the first statement. -/
  | above (first : Nat) (here : body.firstStatement = some first)
      (below : t.lines.lineAt first ≠ t.lines.lineAt body.anchor) :
      Placement t body (t.endOfLineTrivia body.anchor) (t.lineBreak first) ""
  /-- The first statement stands on the line of the brace or the directives, and moves to a line of its own. -/
  | before (first : Nat) (here : body.firstStatement = some first)
      (beside : t.lines.lineAt first = t.lines.lineAt body.anchor) :
      Placement t body first (t.lineBreak body.opening ++ t.style.indent.text)
        (t.lineBreak body.opening ++ t.style.indent.text)
  /-- Nothing is in the body, which ends on another line. -/
  | within (none : body.firstStatement = none) (below : t.lines.lineAt body.closing ≠ t.lines.lineAt body.anchor) :
      Placement t body (t.endOfLineTrivia body.anchor) (t.lineBreak body.opening ++ t.style.indent.text) ""
  /-- Nothing is in the body, and the closing brace moves to a line of its own. -/
  | between (none : body.firstStatement = none) (beside : t.lines.lineAt body.closing = t.lines.lineAt body.anchor) :
      Placement t body body.anchor (t.lineBreak body.opening ++ t.style.indent.text) (t.lineBreak body.opening)

theorem placement_declarationPlace (t : Tree) (body : FunctionBody) :
    t.Placement body (t.declarationPlace body).1 (t.declarationPlace body).2.1 (t.declarationPlace body).2.2 := by
  unfold declarationPlace
  cases statement : body.firstStatement with
  | none =>
      dsimp only
      split
      · rename_i line
        exact .between statement (beq_iff_eq.mp line)
      · rename_i line
        exact .within statement fun same => line (beq_iff_eq.mpr same)
  | some first =>
      dsimp only
      split
      · rename_i line
        exact .before first statement (beq_iff_eq.mp line)
      · rename_i line
        exact .above first statement fun same => line (beq_iff_eq.mpr same)

/-! ### Nothing else goes there -/

section Gaps

variable {place place' : Cursor} {offset : Nat} {function : NodeId}

/-- A node in braces that comes later takes in another gap behind the first. -/
theorem gapEnd_lt_of_brackets {origin : Cursor} {nodes : Array Node} {i j : Nat} {n m : Node}
    (first : n.Brackets origin nodes place i) (second : m.Brackets origin nodes place' j) (found : nodes[j]? = some m)
    (before : i < j) : gapEnd place < place'.offset :=
  Nat.lt_of_le_of_lt (first.later j m found before second.opens) second.start

/-- The gaps in the bodies of different functions have no offset in common. -/
theorem not_inGap_of_ne {origin : Cursor} {nodes : Array Node} {other : NodeId}
    (gap : FreeGapIn origin nodes function place) (gap' : FreeGapIn origin nodes other place')
    (different : function ≠ other) (inside : InGap place offset) : ¬InGap place' offset := by
  rintro ⟨start', stop'⟩
  obtain ⟨start, stop⟩ := inside
  obtain ⟨i, n, found, parent, brackets⟩ := gap.taken
  obtain ⟨j, m, there, parent', brackets'⟩ := gap'.taken
  have distinct : i ≠ j := by
    rintro rfl
    obtain rfl := Option.some.inj (found.symm.trans there)
    exact different (Option.some.inj (parent.symm.trans parent'))
  rcases Nat.lt_or_gt_of_ne distinct with before | behind
  · have apart := gapEnd_lt_of_brackets brackets brackets' there before
    omega
  · have apart := gapEnd_lt_of_brackets brackets' brackets found behind
    omega

/-- A new name takes the place of one that is not empty. -/
theorem filter_renamePatches (u : Tree) (offset : Nat) :
    (u.nodes.toList.filterMap renamePatch?).filter (·.insertsAt offset) = [] := by
  rw [List.filter_eq_nil_iff]
  intro p here there
  rw [Patch.insertsAt_iff] at there
  obtain ⟨n, -, due⟩ := List.mem_filterMap.mp here
  obtain ⟨i, oldName, site, -, -, -, -, solid, rfl⟩ := renamePatch?_eq_some_iff.mp due
  rw [Span.isEmpty, show n.span = Span.emptyAt offset from there] at solid
  exact beq_eq_false_iff_ne.mp solid rfl

variable (gap : FreeGapIn (start t.source) t.nodes function place) (inside : InGap place offset)
include gap inside

/-- Nor has one with a gap that all nodes keep clear of, for a node takes it in. -/
theorem IsLaidOut.not_inGap_of_parted (laidOut : t.IsLaidOut) (parted : Parted t.nodes place') :
    ¬InGap place' offset := by
  rintro ⟨start', stop'⟩
  obtain ⟨start, stop⟩ := inside
  obtain ⟨i, n, found, parent, brackets⟩ := gap.taken
  have inner : i ≠ 0 := Nat.ne_of_gt (Nat.zero_lt_of_lt (laidOut.layout.parent_lt i n _ found parent))
  have first := brackets.start
  have last := brackets.stop
  rcases parted i n found inner with ends | begins
  · omega
  · omega

/-- No name ends in the gap. -/
theorem IsPristine.ne_of_endsName (pristine : t.IsPristine) {id : NodeId} {stop : Nat}
    (ends : EndsName t.nodes id stop) : stop ≠ offset := by
  obtain ⟨n, found, identifier, rfl⟩ := ends
  obtain ⟨i, kind⟩ := NodeKind.isIdentifier_iff.mp identifier
  have solid := (pristine.identifiers id n i found kind).1
  obtain ⟨start, stop⟩ := inside
  rcases gap.free _ n found identifier with before | behind
  · omega
  · omega

section Recorded

variable (descends : t.Descends u) (pristine : t.IsPristine) (laidOut : t.IsLaidOut)
include descends pristine laidOut

/-- Names are added to an import behind one of its names, or in the place of its braces. -/
theorem filter_importPatches :
    (u.imports.filterMap fun x => u.importPatch? x.1 x.2).filter (·.insertsAt offset) = [] := by
  rw [List.filter_eq_nil_iff]
  intro p here there
  obtain ⟨⟨id, i⟩, listed, due⟩ := List.mem_filterMap.mp here
  obtain ⟨solid, place⟩ := importPatch?_cases due
  obtain ⟨-, j, added, was, rfl⟩ := descends.exists_import pristine listed solid
  obtain ⟨n, found, kind, -⟩ := laidOut.exists_of_mem_imports was
  have fits := laidOut.imports _ n j found kind
  obtain ⟨first, last⟩ := Patch.insertsAt_iff_ends.mp there
  rcases place with ⟨named, specifier, braces, behind, rfl⟩ | ⟨named, braces, -, rfl⟩ | ⟨name, -, default, rfl⟩
  · exact pristine.ne_of_endsName gap inside
      ((fits.named named braces).specifiers specifier (List.mem_of_getLast? behind)) first
  · have isImport : t.kind? id = some (.importDeclaration j) := import?_eq_some_iff.mp (mem_imports.mp was).2
    have ordered := (pristine.placed id _ isImport named braces).ordered
    dsimp only at first last
    omega
  · obtain ⟨stop, ends⟩ := fits.defaultName name default
    refine pristine.ne_of_endsName gap inside ends ?_
    obtain ⟨m, isNode, -, rfl⟩ := ends
    have known : name.index < t.size := (Array.getElem?_eq_some_iff.mp isNode).choose
    have span : t.spanOf name = m.span := by rw [spanOf, show t.node? name = some m from isNode]; rfl
    rw [← first, ← span, ← descends.places.spanOf name known]
    rfl

/-- Nothing but insertions is recorded for an offset in the gap. -/
theorem filter_allPatches :
    u.allPatches.filter (·.insertsAt offset) = (u.insertionsAt offset).map u.insertionPatch := by
  have insertions : ((fun p => Patch.insertsAt offset p) ∘ u.insertionPatch) = fun i => i.offset == offset := by
    funext i
    rw [Bool.eq_iff_iff, Function.comp, Patch.insertsAt_iff_ends, beq_iff_eq]
    exact and_self_iff
  rw [allPatches, List.filter_append, List.filter_append, filter_renamePatches,
    filter_importPatches gap inside descends pristine laidOut, List.nil_append, List.nil_append, List.filter_map,
    insertions, insertionsAt]

end Recorded

end Gaps

/-! ### Nodes that edits leave as they are -/

/-- Every node but the imports is of the same kind in the other tree. -/
def KeepsOthers (u v : Tree) : Prop :=
  ∀ id kind, kind.isImport = false → u.kind? id = some kind → v.kind? id = some kind

theorem Keeps.keepsOthers (keeps : u.Keeps v) : u.KeepsOthers v :=
  fun id kind _ => keeps id kind

theorem KeepsOthers.trans {w : Tree} (first : u.KeepsOthers v) (second : v.KeepsOthers w) : u.KeepsOthers w :=
  fun id kind plain found => second id kind plain (first id kind plain found)

/-- So a declaration is the same with its names. -/
theorem KeepsOthers.spellsBehind (keeps : u.KeepsOthers v) {id : NodeId} {d : BodyDeclaration}
    (behind : u.SpellsBehind id d) : v.SpellsBehind id d := by
  have names {id : NodeId} {name : String} (binds : u.BindsName id name) : v.BindsName id name := by
    obtain ⟨i, kind, site, named⟩ := binds
    exact ⟨i, keeps id _ rfl kind, site, named⟩
  cases d with
  | state value setter callee =>
      obtain ⟨kind, first, second⟩ := behind
      exact ⟨keeps id _ rfl kind, names first, names second⟩
  | null name =>
      obtain ⟨kind, named⟩ := behind
      exact ⟨keeps id _ rfl kind, names named⟩

theorem keepsOthers_foldl_addImportedName {p : NodeId} {i : ImportNode} (isImport : u.import? p = some i)
    (names : List String) : u.KeepsOthers (names.foldl (·.addImportedName p) u) := by
  refine fun id kind plain found => u.kind?_foldl_addImportedName p isImport names ?_ found
  rintro rfl
  rw [import?_eq_some_iff, found, Option.some.injEq] at isImport
  rw [isImport] at plain
  cases plain

section Rename

variable (u) (id : NodeId) (name : String)

/-- A new name changes nothing but a binding. -/
theorem insertions_rename : (u.edit (.rename id name)).insertions = u.insertions := by
  rw [Tree.edit]
  cases edited : u.rename id name with
  | error e => rfl
  | ok v =>
      obtain ⟨i, -, -, rfl⟩ := rename_eq edited
      rfl

/-- A binding that is renamed has the new name. -/
theorem BindsName.rename {u : Tree} {other : NodeId} {old : String} (binds : u.BindsName other old) :
    (u.edit (.rename id name)).BindsName other (if other = id then name else old) := by
  obtain ⟨i, found, site, rfl⟩ := binds
  have isIdentifier : u.identifier? other = some i := by
    obtain ⟨n, node, kind⟩ := Option.map_eq_some_iff.mp found
    exact identifier?_eq_some_iff.mpr ⟨n, node, kind⟩
  rw [Tree.edit]
  cases edited : u.rename id name with
  | error e =>
      by_cases same : other = id
      · subst same
        have none : i.site?.isNone = false := by simpa using site
        simp [Tree.rename, isIdentifier, none] at edited
      · rw [if_neg same]
        exact ⟨i, found, site, rfl⟩
  | ok v =>
      by_cases same : other = id
      · subst same
        rw [if_pos rfl]
        exact ⟨i.renamed name, (kind?_rename isIdentifier edited other).trans (if_pos rfl), site, rfl⟩
      · rw [if_neg same]
        obtain ⟨j, renamed, -⟩ := rename_eq edited
        exact ⟨i, (kind?_rename renamed edited other).trans ((if_neg (Ne.symm same)).trans found), site, rfl⟩

theorem kind?_rename_of_not_identifier {u : Tree} {other : NodeId} {kind : NodeKind} (found : u.kind? other = some kind)
    (plain : kind.isIdentifier = false) : (u.edit (.rename id name)).kind? other = some kind := by
  rw [Tree.edit]
  cases edited : u.rename id name with
  | error e => exact found
  | ok v =>
      obtain ⟨i, isIdentifier, -⟩ := rename_eq edited
      refine (kind?_rename isIdentifier edited other).trans ((if_neg ?_).trans found)
      rintro rfl
      obtain ⟨n, node, kind⟩ := identifier?_eq_some_iff.mp isIdentifier
      rw [kind?, node, Option.map_some, Option.some.injEq] at found
      rw [← found, kind] at plain
      cases plain

/-- A declaration has the new name where it has the binding. -/
theorem SpellsBehind.rename {u : Tree} {own : NodeId} {d : BodyDeclaration} (behind : u.SpellsBehind own d) :
    (u.edit (.rename id name)).SpellsBehind own (d.renamed own id name) := by
  cases d with
  | state value setter callee =>
      obtain ⟨kind, first, second⟩ := behind
      refine ⟨kind?_rename_of_not_identifier id name kind rfl, ?_, ?_⟩
      · exact first.rename id name
      · exact second.rename id name
  | null old =>
      obtain ⟨kind, named⟩ := behind
      exact ⟨kind?_rename_of_not_identifier id name kind rfl, named.rename id name⟩

end Rename

/-! ### The row of declarations in a body -/

/-- The declarations stand in a row at the place for them in a body of the tree `t` that has become `u`. -/
structure DeclaresInRow (t u : Tree) (body : FunctionBody) (ds : List (NodeId × BodyDeclaration)) : Prop where
  placed : u.insertionsAt (t.declarationPlace body).1 = row (t.declarationPlace body) (ds.map (·.1))
  spelled : ∀ d ∈ ds, u.SpellsBehind d.1 d.2

theorem blockBody_of_function {function : NodeId} {f : FunctionNode} {body : FunctionBody}
    (kind : t.kind? function = some (.function f)) (here : f.body = some body) : t.blockBody function = .ok body := by
  simp [blockBody, function?, kind, here]

/-- The functions of an edited tree are those that were read. -/
theorem Descends.blockBody_iff (descends : t.Descends u) (pristine : t.IsPristine) {function : NodeId}
    {body : FunctionBody} : u.blockBody function = .ok body ↔ t.blockBody function = .ok body := by
  constructor
  · intro found
    obtain ⟨f, kind, here⟩ := descends.function_of_blockBody found
    exact blockBody_of_function kind here
  · intro found
    obtain ⟨f, kind, here⟩ := pristine.descends.function_of_blockBody found
    obtain ⟨kind', now, becomes⟩ := descends.becomes function _ kind
    cases becomes
    exact blockBody_of_function now here

/-- The place for declarations in a body is one for it alone: neither those in another body go there nor imports. -/
structure OwnsPlace (t : Tree) (function : NodeId) (offset : Nat) : Prop where
  declaration : ∀ other body, other ≠ function → t.blockBody other = .ok body → (t.declarationPlace body).1 ≠ offset
  imports : ∀ u, t.Descends u → u.importPlace.1 ≠ offset

section Places

variable (pristine : t.IsPristine) (laidOut : t.IsLaidOut) (plain : HasPlainLines t.source)
include pristine laidOut plain

/-- The place for declarations in a body lies in a gap there. -/
theorem exists_gap {function : NodeId} {body : FunctionBody} (found : t.blockBody function = .ok body) :
    ∃ place, FreeGapIn (start t.source) t.nodes function place ∧ InGap place (t.declarationPlace body).1 := by
  obtain ⟨f, kind, here⟩ := pristine.descends.function_of_blockBody found
  obtain ⟨n, node, isFunction⟩ := Option.map_eq_some_iff.mp kind
  exact laidOut.inGap_declarationPlace plain node isFunction here

theorem ownsPlace {function : NodeId} {body : FunctionBody} (found : t.blockBody function = .ok body) :
    t.OwnsPlace function (t.declarationPlace body).1 := by
  obtain ⟨place, gap, inside⟩ := exists_gap pristine laidOut plain found
  constructor
  · intro other body' different found' same
    obtain ⟨place', gap', inside'⟩ := exists_gap pristine laidOut plain found'
    exact not_inGap_of_ne gap gap' (Ne.symm different) inside (same ▸ inside')
  · intro u descends same
    obtain ⟨place', parted, inside'⟩ :=
      descends.welcomes_importPlace pristine laidOut (laidOut.welcomesImports_parted plain)
    exact laidOut.not_inGap_of_parted gap inside parted (same ▸ inside')

end Places

namespace DeclaresInRow

variable {function : NodeId} {body : FunctionBody} {ds : List (NodeId × BodyDeclaration)}
  (row : t.DeclaresInRow u body ds)
include row

/-- What changes no declarations and puts nothing there keeps the row. -/
theorem of_keeps (keeps : u.KeepsOthers v)
    (same : v.insertionsAt (t.declarationPlace body).1 = u.insertionsAt (t.declarationPlace body).1) :
    t.DeclaresInRow v body ds where
  placed := same.trans row.placed
  spelled d here := keeps.spellsBehind (row.spelled d here)

theorem rename (id : NodeId) (name : String) :
    t.DeclaresInRow (u.edit (.rename id name)) body (ds.map fun d => (d.1, d.2.renamed d.1 id name)) where
  placed := by
    rw [insertionsAt, insertions_rename, ← insertionsAt, row.placed, List.map_map]
    rfl
  spelled d here := by
    obtain ⟨old, listed, rfl⟩ := List.mem_map.mp here
    exact (row.spelled old listed).rename id name

theorem addImportNames (p : NodeId) (names : List String) :
    t.DeclaresInRow (u.edit (.addImportNames p names)) body ds := by
  rw [Tree.edit]
  cases edited : u.addImportNames p names with
  | error e => exact row
  | ok v =>
      obtain ⟨i, isImport, -, rfl⟩ := addImportNames_eq edited
      refine row.of_keeps (keepsOthers_foldl_addImportedName isImport names) ?_
      rw [insertionsAt, orKept, insertions_foldl_addImportedName, ← insertionsAt]

theorem insertImport (elsewhere : u.importPlace.1 ≠ (t.declarationPlace body).1) (module : String)
    (names : List String) : t.DeclaresInRow (u.insertImport module names).2 body ds := by
  refine row.of_keeps (u.keeps_insertImport module names).keepsOthers ?_
  rw [insertImport_eq, insertionsAt, insertions_foldl_addImportedName, Tree.withImport, withInsertion,
    List.filter_append, List.filter_cons_of_neg (by simpa using elsewhere), List.filter_nil, List.append_nil]
  rfl

/-- A declaration in the body joins the row, and one in another body does not. -/
theorem declare (descends : t.Descends u) (pristine : t.IsPristine) (found : t.blockBody function = .ok body)
    (owns : t.OwnsPlace function (t.declarationPlace body).1) (f : NodeId) (d : BodyDeclaration) :
    t.DeclaresInRow (u.orKept (u.declare f d)) body (if f = function then ds ++ [(⟨u.size⟩, d)] else ds) := by
  cases bodyOf : u.blockBody f with
  | error e =>
      have other : f ≠ function := by
        rintro rfl
        rw [(descends.blockBody_iff pristine).mpr found] at bodyOf
        cases bodyOf
      rw [declare_eq_error bodyOf, if_neg other]
      exact row
  | ok body' =>
      obtain ⟨w, k, prepared, edited, behind⟩ := exists_declare bodyOf d
      have before := (descends.blockBody_iff pristine).mp bodyOf
      have keeps := (prepared.keeps_synthesize k body').keepsOthers
      -- The place is told by the source, so it is the one in the tree that was read.
      have place := descends.places.text.declarationPlace body'
      rw [edited, orKept]
      by_cases same : f = function
      · subst same
        obtain rfl := Except.ok.inj (before.symm.trans found)
        rw [if_pos rfl]
        refine ⟨?_, fun d' here => ?_⟩
        · have placed := row.placed
          rw [List.map_append, List.map_singleton]
          rw [← place] at placed ⊢
          refine prepared.insertionsAt_self k placed fun id listed => ?_
          obtain ⟨d', listed', rfl⟩ := List.mem_map.mp listed
          exact (row.spelled d' listed').spells.isSynthesizedDeclaration
        · rcases List.mem_append.mp here with old | new
          · exact keeps.spellsBehind (row.spelled d' old)
          · rw [List.mem_singleton.mp new]
            exact behind
      · rw [if_neg same]
        refine row.of_keeps keeps (prepared.insertionsAt_of_ne k ?_)
        rw [place]
        exact owns.declaration f body' same before

/-- Every edit keeps the declarations in a row. -/
theorem edit (descends : t.Descends u) (pristine : t.IsPristine) (found : t.blockBody function = .ok body)
    (owns : t.OwnsPlace function (t.declarationPlace body).1) (e : Edit) :
    t.DeclaresInRow (u.edit e) body (e.declarations function ⟨u.size⟩ ds) := by
  cases e with
  | rename id name => exact row.rename id name
  | addImportNames p names => exact row.addImportNames p names
  | insertImport module names => exact row.insertImport (owns.imports u descends) module names
  | declareState f value setter callee => exact row.declare descends pristine found owns f (.state value setter callee)
  | declareNull f name => exact row.declare descends pristine found owns f (.null name)

/-- So do all edits, one after another. -/
theorem editAll (descends : t.Descends u) (pristine : t.IsPristine) (found : t.blockBody function = .ok body)
    (owns : t.OwnsPlace function (t.declarationPlace body).1) (edits : List Edit) :
    t.DeclaresInRow (u.editAll edits) body (u.declarationsIn function ds edits) := by
  induction edits generalizing u ds with
  | nil => exact row
  | cons e edits ih => exact ih (row.edit descends pristine found owns e) (descends.edit pristine e)

end DeclaresInRow

/-! ### The declarations that are printed -/

/-- Declarations as they stand at the top of a body: each behind its line break, and what stands behind them all. -/
def declarationBlock (t : Tree) (lead trail : String) (ds : List BodyDeclaration) : List Char :=
  (ds.flatMap fun d => (lead ++ d.text t.style.semicolons).toList) ++ trail.toList

/-- A row of declarations is recorded as the texts that it is printed as. -/
theorem DeclaresInRow.flatMap_texts {body : FunctionBody} {ds : List (NodeId × BodyDeclaration)}
    (inRow : t.DeclaresInRow u body ds) (text : t.SameText u) (some : ds ≠ []) :
    ((u.insertionsAt (t.declarationPlace body).1).map fun i => i.lead ++ u.synthesizedText i.node ++ i.trail).flatMap
      String.toList = t.declarationBlock (t.declarationPlace body).2.1 (t.declarationPlace body).2.2 (ds.map (·.2)) := by
  have written : List.Forall₂ u.Spells (ds.map (·.1)) (ds.map (·.2)) := by
    rw [List.forall₂_map_left_iff, List.forall₂_map_right_iff, List.forall₂_same]
    exact fun d here => (inRow.spelled d here).spells
  rw [inRow.placed, flatMap_row written (by simpa using some), BodyDeclaration.text_sentences, text.style]
  rfl

end Tree

/-- Several declarations in one body are printed in order. However a source without line and paragraph separators has
been edited, all declarations in the body of a function stand at one offset, and nothing else is inserted there. They
stand in the order in which they were made, each behind the same line break with the same indentation, and what parts
them from the rest of the body stands once, behind the last. They have the names that they were given, unless one of
these has been changed. -/
theorem declarations_stand_in_order {source : String} {dialect : Dialect} {t : Tree} {function : NodeId}
    {body : FunctionBody} (plain : HasPlainLines source.toList) (parsed : parse source dialect = .ok t)
    (found : t.blockBody function = .ok body) {edits : List Edit} (some : t.declarationsIn function [] edits ≠ []) :
    ((∀ id name, Edit.rename id name ∈ edits → id.index < t.size) →
      (t.declarationsIn function [] edits).map (·.2) = edits.filterMap (·.declaration? function)) ∧
    ∃ offset lead trail, t.declarationPlace body = (offset, lead, trail) ∧ t.Placement body offset lead trail ∧
      t.BreaksLine lead ∧ ∃ before after, (t.editAll edits).PrintsAt offset
        (t.declarationBlock lead trail ((t.declarationsIn function [] edits).map (·.2))) before after := by
  have pristine := isPristine_of_parse parsed
  have laidOut := isLaidOut_of_parse parsed
  rw [← (source_of_parse parsed).1] at plain
  have descends := pristine.descends_editAll edits
  have owns := Tree.ownsPlace pristine laidOut plain found
  obtain ⟨place, gap, inside⟩ := Tree.exists_gap pristine laidOut plain found
  have empty : t.DeclaresInRow t body [] := by
    refine ⟨?_, fun _ here => absurd here List.not_mem_nil⟩
    rw [Tree.insertionsAt, pristine.insertions]
    rfl
  have inRow := empty.editAll pristine.descends pristine found owns edits
  refine ⟨fun kept => Tree.declarationsIn_eq kept (fun _ here => absurd here List.not_mem_nil) (Nat.le_refl _), ?_⟩
  refine ⟨(t.declarationPlace body).1, (t.declarationPlace body).2.1, (t.declarationPlace body).2.2, rfl,
    t.placement_declarationPlace body, (t.breaksLine_declarationPlace body).1, ?_⟩
  rw [← inRow.flatMap_texts descends.places.text some]
  refine descends.printsAt pristine laidOut (pristine.placesIn_editAll laidOut plain edits) ?_ ?_
  · rw [Tree.filter_allPatches gap inside descends pristine laidOut, List.map_map]
    refine List.map_congr_left fun i here => ?_
    rw [Tree.insertionPatch, Tree.offset_of_mem_insertionsAt here]
    rfl
  · rw [inRow.placed]
    simpa using Tree.row_ne_nil (by simpa using some)

/-- Two functions, one of them with a directive and a statement on the line of its brace. -/
def bracedSource : String :=
  "function f() \x7b\n  a()\n\x7d\nfunction g() \x7b 'use strict'; return 2 \x7d\n"

/-- Declarations in both functions, an import and another name for what is declared first. -/
def bracedEdits : List Edit :=
  [.declareState ⟨6⟩ "x" "setX" "useState", .declareNull ⟨1⟩ "a", .insertImport "m" ["useState"], .rename ⟨12⟩ "y",
    .declareNull ⟨6⟩ "z"]

set_option maxRecDepth 100000 in
/-- Both declarations stand behind the directive. The statement behind them moves to a line of its own, once. -/
theorem declarations_stand_behind_directive : HasPlainLines bracedSource.toList ∧ ∃ t body,
    parse bracedSource .javascript = .ok t ∧ t.blockBody ⟨6⟩ = .ok body ∧ t.declarationsIn ⟨6⟩ [] bracedEdits ≠ [] ∧
      ∃ before after, (t.editAll bracedEdits).PrintsAt 52
        "\n  const [y, setX] = useState(null)\n  let z = null\n  ".toList before after := by
  have plain : HasPlainLines bracedSource.toList := by decide +kernel
  obtain ⟨t, parsed, test⟩ := exists_ok_of_test (parse bracedSource .javascript)
    (fun t => match t.blockBody ⟨6⟩ with
      | .ok body => t.declarationPlace body == (52, "\n  ", "\n  ") && !t.style.semicolons &&
          (t.declarationsIn ⟨6⟩ [] bracedEdits).map (·.2) == [.state "y" "setX" "useState", .null "z"]
      | .error _ => false) (by decide +kernel)
  cases found : t.blockBody ⟨6⟩ with
  | error e => simp [found] at test
  | ok body =>
      simp only [found, Bool.and_eq_true, beq_iff_eq, Bool.not_eq_true'] at test
      obtain ⟨⟨place, semicolons⟩, declared⟩ := test
      have some : t.declarationsIn ⟨6⟩ [] bracedEdits ≠ [] := by
        intro none
        rw [none] at declared
        cases declared
      obtain ⟨-, offset, lead, trail, same, -, -, printed⟩ := declarations_stand_in_order plain parsed found some
      obtain ⟨rfl, rfl, rfl⟩ : offset = 52 ∧ lead = "\n  " ∧ trail = "\n  " := by simpa using same.symm.trans place
      rw [declared, Tree.declarationBlock, semicolons] at printed
      exact ⟨plain, t, body, parsed, found, some, printed⟩

end BindingRepair.Script
