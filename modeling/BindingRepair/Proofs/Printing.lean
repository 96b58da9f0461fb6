/-
# Printing inserted declarations

Of a parsed tree into whose function declarations were inserted, the source is printed with the text of
the declarations at one place, in the order of the edits.
-/

import BindingRepair.Proofs.Frame
import BindingRepair.Proofs.Grammar.Inserted
import BindingRepair.Proofs.Grammar.Parsed
import BindingRepair.Script.Printer
import Mathlib.Data.List.Forall2

namespace BindingRepair.Script

open Text

/-! ### Splicing -/

theorem takeBytes_zero (text : List Char) : takeBytes 0 text = [] := by
  cases text <;> rfl

theorem dropBytes_zero (text : List Char) : dropBytes 0 text = text := by
  cases text <;> rfl

/-- Texts at the place that is reached stand before all that comes later. -/
theorem splice_here_append (offset : Nat) (rest : List Char) (texts : List String) (later : List Patch) :
    splice offset rest ((texts.map fun text => ⟨Span.emptyAt offset, text⟩) ++ later) =
      (texts.flatMap String.toList ++ ·) <$> splice offset rest later := by
  induction texts with
  | nil => exact (id_map (splice offset rest later)).symm
  | cons text texts ih =>
      have stop : (Span.emptyAt offset).stop = offset := rfl
      have start : (Span.emptyAt offset).start = offset := rfl
      simp only [List.map_cons, List.cons_append, splice, stop, start, Nat.lt_irrefl, if_false, Nat.sub_self,
        dropBytes_zero, takeBytes_zero, ih]
      cases splice offset rest later with
      | error e => rfl
      | ok out => simp [bind, Except.bind, pure, Except.pure, Functor.map, Except.map]

theorem splice_here (offset : Nat) (rest : List Char) (texts : List String) :
    splice offset rest (texts.map fun text => ⟨Span.emptyAt offset, text⟩) =
      .ok (texts.flatMap String.toList ++ rest) := by
  have here := splice_here_append offset rest texts []
  rw [List.append_nil] at here
  exact here

/-- Texts at one place stand there one after another. -/
theorem splice_at (offset : Nat) (source : List Char) {texts : List String} (nonempty : texts ≠ []) :
    splice 0 source (texts.map fun text => ⟨Span.emptyAt offset, text⟩) =
      .ok (takeBytes offset source ++ texts.flatMap String.toList ++ dropBytes offset source) := by
  obtain ⟨text, texts, rfl⟩ := List.exists_cons_of_ne_nil nonempty
  have stop : (Span.emptyAt offset).stop = offset := rfl
  have start : (Span.emptyAt offset).start = offset := rfl
  simp only [List.map_cons, splice, start, stop, Nat.not_lt_zero, if_false, Nat.sub_zero, splice_here]
  simp [bind, Except.bind, pure, Except.pure]

/-- Patches at one place are in order as they are. -/
theorem mergeSort_at (offset : Nat) (texts : List String) :
    (texts.map fun text => (⟨Span.emptyAt offset, text⟩ : Patch)).mergeSort Patch.precedes =
      texts.map fun text => ⟨Span.emptyAt offset, text⟩ := by
  refine List.mergeSort_of_pairwise ?_
  refine List.pairwise_map.mpr (List.pairwise_of_forall fun _ _ => ?_)
  simp [Patch.precedes, Span.emptyAt]

namespace Tree

/-- A renaming is printed only for a node that bears its mark and stands in the source. -/
theorem renamePatch?_of_unmarked {n : Node} (unmarked : n.kind.isUntouched = true ∨ n.span.isEmpty = true) :
    renamePatch? n = none := by
  unfold renamePatch?
  cases kind : n.kind with
  | identifier i =>
      rcases unmarked with plain | nowhere
      · rw [kind] at plain
        simp only [NodeKind.isUntouched, Option.isNone_iff_eq_none] at plain
        simp [plain]
      · cases marked : i.renamedFrom with
        | none => simp [marked]
        | some oldName =>
            cases site : i.site? with
            | none => simp [marked, site]
            | some site' => simp [marked, site, nowhere]
  | _ => rfl

/-- Where each import bears no mark of an edit or is nowhere in the source, no names are printed behind those of an
import. -/
theorem importPatches_eq_nil {t : Tree} (unmarked : ∀ (index : Nat) (n : Node), t.nodes[index]? = some n →
    n.kind.isImport = true → n.kind.isUntouched = true ∨ n.span.isEmpty = true) :
    t.imports.filterMap (fun entry => t.importPatch? entry.1 entry.2) = [] := by
  refine List.filterMap_eq_nil_iff.mpr fun entry here => ?_
  obtain ⟨id, -, found⟩ := List.mem_filterMap.mp here
  obtain ⟨i, isImport, rfl⟩ := Option.map_eq_some_iff.mp found
  obtain ⟨n, found, kind⟩ := Option.map_eq_some_iff.mp (import?_eq_some_iff.mp isImport)
  have silent : i.added.isEmpty = true ∨ (t.spanOf id).isEmpty = true := by
    have mark := unmarked id.index n found (by rw [kind]; rfl)
    rw [kind] at mark
    rw [spanOf, found]
    exact mark
  rcases silent with plain | nowhere
  · simp [importPatch?, plain]
  · simp [importPatch?, nowhere]

/-- Where each node bears no mark of an edit or is nowhere in the source, only insertions are printed. -/
theorem patches_of_unmarked {t : Tree} (unmarked : ∀ (index : Nat) (n : Node), t.nodes[index]? = some n →
    n.kind.isUntouched = true ∨ n.span.isEmpty = true) :
    t.patches = (t.insertions.map t.insertionPatch).mergeSort Patch.precedes := by
  have noRename : t.nodes.toList.filterMap renamePatch? = [] := by
    refine List.filterMap_eq_nil_iff.mpr fun n here => ?_
    obtain ⟨index, bounded, found⟩ := List.getElem_of_mem here
    exact renamePatch?_of_unmarked (unmarked index n (by rw [← found]; simp))
  rw [patches, noRename, importPatches_eq_nil fun index n found _ => unmarked index n found, List.nil_append,
    List.nil_append]

/-! ### Inserted declarations -/

/-- Inserts a declaration at the top of the body of a function. -/
def declare (t : Tree) (function : NodeId) : BodyDeclaration → Except EditError Tree
  | .state value setter callee => (·.2) <$> t.declareState function value setter callee
  | .null name => (·.2) <$> t.declareNull function name

/-- Inserts declarations one after another. -/
def declareAll (t : Tree) (function : NodeId) (declarations : List BodyDeclaration) :
    Except EditError Tree :=
  declarations.foldlM (·.declare function) t

/-- Every node of the tree has the same kind in the other one. -/
def Keeps (t u : Tree) : Prop :=
  ∀ id kind, t.kind? id = some kind → u.kind? id = some kind

theorem Keeps.name? {t u : Tree} (keeps : t.Keeps u) {id : NodeId} {name : String}
    (named : t.name? id = some name) : u.name? id = some name := by
  unfold Tree.name? identifier? at named ⊢
  cases found : t.kind? id with
  | none => simp [found] at named
  | some kind =>
      rw [found] at named
      rw [keeps id kind found]
      exact named

/-- The node is the declaration. -/
def Spells (t : Tree) (id : NodeId) : BodyDeclaration → Prop
  | .state value setter callee => ∃ i j, t.kind? id = some (.synthesized (.state i j callee)) ∧
    t.name? i = some value ∧ t.name? j = some setter
  | .null name => ∃ i, t.kind? id = some (.synthesized (.null i)) ∧ t.name? i = some name

theorem Keeps.spells {t u : Tree} (keeps : t.Keeps u) {id : NodeId} {declaration : BodyDeclaration}
    (spells : t.Spells id declaration) : u.Spells id declaration := by
  cases declaration with
  | state value setter callee =>
      obtain ⟨i, j, kind, first, second⟩ := spells
      exact ⟨i, j, keeps id _ kind, keeps.name? first, keeps.name? second⟩
  | null name =>
      obtain ⟨i, kind, named⟩ := spells
      exact ⟨i, keeps id _ kind, keeps.name? named⟩

/-- The node is a binding with the name. -/
def BindsName (t : Tree) (id : NodeId) (name : String) : Prop :=
  ∃ i, t.kind? id = some (.identifier i) ∧ i.site?.isSome = true ∧ i.name = name

theorem BindsName.name?_eq {t : Tree} {id : NodeId} {name : String} (binds : t.BindsName id name) :
    t.name? id = some name := by
  obtain ⟨i, kind, -, rfl⟩ := binds
  rw [Tree.name?, identifier?, kind]
  rfl

/-- The node is the declaration, and the nodes behind it are its names. -/
def SpellsBehind (t : Tree) (id : NodeId) : BodyDeclaration → Prop
  | .state value setter callee =>
    t.kind? id = some (.synthesized (.state ⟨id.index + 1⟩ ⟨id.index + 2⟩ callee)) ∧
      t.BindsName ⟨id.index + 1⟩ value ∧ t.BindsName ⟨id.index + 2⟩ setter
  | .null name => t.kind? id = some (.synthesized (.null ⟨id.index + 1⟩)) ∧ t.BindsName ⟨id.index + 1⟩ name

theorem SpellsBehind.spells {t : Tree} {id : NodeId} {declaration : BodyDeclaration}
    (behind : t.SpellsBehind id declaration) : t.Spells id declaration := by
  cases declaration with
  | state value setter callee => exact ⟨_, _, behind.1, behind.2.1.name?_eq, behind.2.2.name?_eq⟩
  | null name => exact ⟨_, behind.1, behind.2.name?_eq⟩

theorem Keeps.isSynthesizedDeclaration {t u : Tree} (keeps : t.Keeps u) {id : NodeId}
    (declared : t.isSynthesizedDeclaration id = true) : u.isSynthesizedDeclaration id = true := by
  unfold Tree.isSynthesizedDeclaration at declared ⊢
  cases found : t.kind? id with
  | none => simp [found] at declared
  | some kind =>
      rw [found] at declared
      rw [keeps id kind found]
      exact declared

theorem Spells.isSynthesizedDeclaration {t : Tree} {id : NodeId} {declaration : BodyDeclaration}
    (spells : t.Spells id declaration) : t.isSynthesizedDeclaration id = true := by
  unfold Tree.isSynthesizedDeclaration
  cases declaration with
  | state value setter callee =>
      obtain ⟨i, j, kind, -⟩ := spells
      rw [kind]
  | null name =>
      obtain ⟨i, kind, -⟩ := spells
      rw [kind]

/-- A declaration is printed as its words, with the gap before it. -/
theorem Spells.synthesizedText {t : Tree} {id : NodeId} {declaration : BodyDeclaration}
    (spells : t.Spells id declaration) (lead : String) :
    (lead ++ t.synthesizedText id).toList =
      (declaration.sentence lead.toList t.style.semicolons).text := by
  unfold Tree.synthesizedText
  cases declaration with
  | state value setter callee =>
      obtain ⟨i, j, kind, first, second⟩ := spells
      cases semicolons : t.style.semicolons with
      | true => simp [kind, first, second, BodyDeclaration.sentence, BodyDeclaration.phrase, Phrase.text, Word.text]
      | false => simp [kind, first, second, BodyDeclaration.sentence, BodyDeclaration.phrase, Phrase.text, Word.text]
  | null name =>
      obtain ⟨i, kind, named⟩ := spells
      cases semicolons : t.style.semicolons with
      | true => simp [kind, named, BodyDeclaration.sentence, BodyDeclaration.phrase, Phrase.text, Word.text]
      | false => simp [kind, named, BodyDeclaration.sentence, BodyDeclaration.phrase, Phrase.text, Word.text]

theorem kind?_addNode (t : Tree) (kind : NodeKind) (parent : NodeId) (scope : ScopeId) (offset : Nat)
    (id : NodeId) : (t.addNode kind parent scope offset).2.kind? id =
      if id.index = t.size then some kind else t.kind? id := by
  unfold Tree.kind?
  rw [node?_addNode]
  split
  · rfl
  · split
    · cases t.node? id <;> rfl
    · rfl

theorem kind?_addBinding (t : Tree) (parent : NodeId) (scope : ScopeId) (name : String)
    (kind : BindingKind) (id : NodeId) : (t.addBinding parent scope name kind).2.kind? id =
      if id.index = t.size then
        some (.identifier { name, role := .binding { kind }, synthesized := true })
      else t.kind? id :=
  t.kind?_addNode _ parent scope _ id

theorem kind?_synthesize (t : Tree) (id : NodeId) (declaration : SynthesizedDeclaration)
    (body : FunctionBody) (other : NodeId) : (t.synthesize id declaration body).kind? other =
      if id = other then (t.kind? other).map fun _ => .synthesized declaration else t.kind? other := by
  rw [Tree.kind?, node?_synthesize, Tree.kind?]
  split
  · cases t.node? other <;> rfl
  · rfl

/-- Insertions at one place: only behind the last of them stands what is written behind. -/
def row (place : Nat × String × String) : List NodeId → List Insertion
  | [] => []
  | [id] => [⟨place.1, id, place.2.1, place.2.2⟩]
  | id :: next :: ids => ⟨place.1, id, place.2.1, ""⟩ :: row place (next :: ids)

theorem row_concat (place : Nat × String × String) (ids : List NodeId) (id : NodeId) :
    row place (ids ++ [id]) =
      (row place ids).map (fun i => { i with trail := "" }) ++ [⟨place.1, id, place.2.1, place.2.2⟩] := by
  induction ids with
  | nil => rfl
  | cons first ids ih =>
      cases ids with
      | nil => rfl
      | cons second ids => simpa [row] using ih

theorem mem_row {place : Nat × String × String} {ids : List NodeId} {i : Insertion}
    (here : i ∈ row place ids) :
    i.offset = place.1 ∧ i.node ∈ ids ∧ (i.trail = "" ∨ i.trail = place.2.2) := by
  induction ids with
  | nil => cases here
  | cons first ids ih =>
      cases ids with
      | nil =>
          rw [List.mem_singleton.mp here]
          exact ⟨rfl, List.mem_cons_self, .inr rfl⟩
      | cons second ids =>
          rcases List.mem_cons.mp here with rfl | later
          · exact ⟨rfl, List.mem_cons_self, .inl rfl⟩
          · obtain ⟨offset, listed, trail⟩ := ih later
            exact ⟨offset, List.mem_cons_of_mem first listed, trail⟩

theorem row_ne_nil {place : Nat × String × String} {ids : List NodeId} (some : ids ≠ []) : row place ids ≠ [] := by
  cases ids with
  | nil => exact absurd rfl some
  | cons first ids =>
      cases ids with
      | nil => exact List.cons_ne_nil _ _
      | cons second ids => exact List.cons_ne_nil _ _

/-- What is written behind a row of insertions is the same for each of them. -/
theorem foldl_trail {trail : String} {insertions : List Insertion}
    (same : ∀ i ∈ insertions, i.trail = "" ∨ i.trail = trail) :
    insertions.foldl (fun trail i => if trail.isEmpty then i.trail else trail) trail = trail := by
  induction insertions with
  | nil => rfl
  | cons i insertions ih =>
      have first : (if trail.isEmpty then i.trail else trail) = trail := by
        split
        · rename_i empty
          rw [String.isEmpty_iff] at empty
          rcases same i List.mem_cons_self with none | all
          · rw [none, empty]
          · exact all
        · rfl
      rw [List.foldl_cons, first]
      exact ih fun j listed => same j (List.mem_cons_of_mem i listed)

/-- The insertions at an offset. -/
def insertionsAt (t : Tree) (offset : Nat) : List Insertion :=
  t.insertions.filter (·.offset == offset)

/-- An insertion stays at its offset when what is written behind it is taken away. -/
theorem filter_map_trail (insertions : List Insertion) (joins : Insertion → Bool) (offset : Nat) :
    (insertions.map fun i => if joins i = true then { i with trail := "" } else i).filter (·.offset == offset) =
      (insertions.filter (·.offset == offset)).map fun i => if joins i = true then { i with trail := "" } else i := by
  rw [List.filter_map]
  congr 2
  funext i
  dsimp only [Function.comp]
  split
  · rfl
  · rfl

theorem offset_of_mem_insertionsAt {t : Tree} {offset : Nat} {i : Insertion} (here : i ∈ t.insertionsAt offset) :
    i.offset = offset :=
  beq_iff_eq.mp (List.mem_filter.mp here).2

theorem offset_of_mem_placeDeclaration {t : Tree} {body : FunctionBody} {id : NodeId} {i : Insertion}
    (here : i ∈ (t.placeDeclaration body id).insertions) :
    i.offset = (t.declarationPlace body).1 ∨ ∃ j ∈ t.insertions, j.offset = i.offset := by
  unfold placeDeclaration at here
  generalize t.declarationPlace body = place at here ⊢
  rcases List.mem_append.mp here with old | new
  · obtain ⟨j, listed, rfl⟩ := List.mem_map.mp old
    refine .inr ⟨j, listed, ?_⟩
    split
    · rfl
    · rfl
  · rw [List.mem_singleton.mp new]
    exact .inl rfl

/-- A declaration joins the row of those that were placed before at its offset. -/
theorem insertionsAt_placeDeclaration_self {t : Tree} {body : FunctionBody} {ids : List NodeId}
    (placed : t.insertionsAt (t.declarationPlace body).1 = row (t.declarationPlace body) ids)
    (declared : ∀ id ∈ ids, t.isSynthesizedDeclaration id = true) (id : NodeId) :
    (t.placeDeclaration body id).insertionsAt (t.declarationPlace body).1 =
      row (t.declarationPlace body) (ids ++ [id]) := by
  unfold placeDeclaration
  generalize t.declarationPlace body = place at placed ⊢
  obtain ⟨offset, lead, trail⟩ := place
  dsimp only at placed ⊢
  have declared (i : Insertion) (here : i ∈ t.insertionsAt offset) : t.isSynthesizedDeclaration i.node = true := by
    rw [placed] at here
    exact declared i.node (mem_row here).2.1
  have trails (i : Insertion) (here : i ∈ t.insertionsAt offset) : i.trail = "" ∨ i.trail = trail := by
    rw [placed] at here
    exact (mem_row here).2.2
  have joined : t.insertions.filter (fun i => i.offset == offset && t.isSynthesizedDeclaration i.node) =
      t.insertionsAt offset := by
    refine List.filter_congr fun i here => ?_
    cases same : i.offset == offset with
    | false => rfl
    | true => exact (Bool.true_and _).trans (declared i (List.mem_filter.mpr ⟨here, same⟩))
  have cleared : ((t.insertionsAt offset).map fun i =>
      if (i.offset == offset && t.isSynthesizedDeclaration i.node) = true then { i with trail := "" } else i) =
        (t.insertionsAt offset).map fun i => { i with trail := "" } := by
    refine List.map_congr_left fun i here => if_pos ?_
    rw [declared i here, offset_of_mem_insertionsAt here, beq_self_eq_true, Bool.true_and]
  rw [insertionsAt, List.filter_append, joined, foldl_trail trails,
    filter_map_trail t.insertions fun i => i.offset == offset && t.isSynthesizedDeclaration i.node, ← insertionsAt,
    cleared, row_concat, placed]
  simp

/-- A declaration that is placed elsewhere is none of those at the offset. -/
theorem insertionsAt_placeDeclaration_of_ne {t : Tree} {body : FunctionBody} {offset : Nat}
    (elsewhere : (t.declarationPlace body).1 ≠ offset) (id : NodeId) :
    (t.placeDeclaration body id).insertionsAt offset = t.insertionsAt offset := by
  unfold placeDeclaration
  generalize t.declarationPlace body = place at elsewhere ⊢
  rw [insertionsAt, List.filter_append, List.filter_cons_of_neg (by simpa using elsewhere), List.filter_nil,
    List.append_nil, filter_map_trail t.insertions fun i => i.offset == place.1 && t.isSynthesizedDeclaration i.node]
  refine (List.map_congr_left fun i here => if_neg ?_).trans (List.map_id _)
  have same : i.offset = offset := offset_of_mem_insertionsAt here
  simp [same, Ne.symm elsewhere]

/-- A declaration joins the row of those that were placed before. -/
theorem insertions_placeDeclaration {t : Tree} {body : FunctionBody} {ids : List NodeId}
    (insertions : t.insertions = row (t.declarationPlace body) ids)
    (declared : ∀ id ∈ ids, t.isSynthesizedDeclaration id = true) (id : NodeId) :
    (t.placeDeclaration body id).insertions = row (t.declarationPlace body) (ids ++ [id]) := by
  have here (i : Insertion) (listed : i ∈ t.insertions) : i.offset = (t.declarationPlace body).1 := by
    rw [insertions] at listed
    exact (mem_row listed).1
  have placed : t.insertionsAt (t.declarationPlace body).1 = t.insertions :=
    List.filter_eq_self.mpr fun i listed => beq_iff_eq.mpr (here i listed)
  rw [← insertionsAt_placeDeclaration_self (placed.trans insertions) declared id]
  refine (List.filter_eq_self.mpr fun i listed => beq_iff_eq.mpr ?_).symm
  rcases offset_of_mem_placeDeclaration listed with same | ⟨j, old, same⟩
  · exact same
  · exact same.symm.trans (here j old)

/-! ### One edit -/

theorem lt_size_of_kind? {t : Tree} {id : NodeId} {kind : NodeKind} (found : t.kind? id = some kind) :
    id.index < t.size := by
  obtain ⟨n, node, -⟩ := Option.map_eq_some_iff.mp found
  exact (Array.getElem?_eq_some_iff.mp node).choose

theorem ne_of_kind? {t : Tree} {id : NodeId} {kind : NodeKind} (found : t.kind? id = some kind) :
    (⟨t.size⟩ : NodeId) ≠ id := by
  rintro rfl
  exact Nat.lt_irrefl _ (lt_size_of_kind? found)

theorem Keeps.trans {t u v : Tree} (first : t.Keeps u) (second : u.Keeps v) : t.Keeps v :=
  fun id kind found => second id kind (first id kind found)

theorem keeps_addNode (t : Tree) (kind : NodeKind) (parent : NodeId) (scope : ScopeId) (offset : Nat) :
    t.Keeps (t.addNode kind parent scope offset).2 := by
  intro id other found
  rw [kind?_addNode, if_neg (Nat.ne_of_lt (lt_size_of_kind? found)), found]

theorem keeps_addBinding (t : Tree) (parent : NodeId) (scope : ScopeId) (name : String)
    (kind : BindingKind) : t.Keeps (t.addBinding parent scope name kind).2 :=
  t.keeps_addNode _ parent scope _

theorem Keeps.blockBody {t u : Tree} (keeps : t.Keeps u) {function : NodeId} {body : FunctionBody}
    (found : t.blockBody function = .ok body) : u.blockBody function = .ok body := by
  unfold Tree.blockBody function? at found ⊢
  cases kind : t.kind? function with
  | none => simp [kind] at found
  | some k =>
      rw [kind] at found
      rw [keeps function k kind]
      exact found

theorem bindsName_addBinding (t : Tree) (parent : NodeId) (scope : ScopeId) (name : String)
    (kind : BindingKind) : (t.addBinding parent scope name kind).2.BindsName ⟨t.size⟩ name :=
  ⟨_, by rw [kind?_addBinding, if_pos rfl], rfl, rfl⟩

theorem Keeps.bindsName {t u : Tree} (keeps : t.Keeps u) {id : NodeId} {name : String}
    (binds : t.BindsName id name) : u.BindsName id name := by
  obtain ⟨i, kind, site, named⟩ := binds
  exact ⟨i, keeps id _ kind, site, named⟩

theorem kind?_synthesize_self {t : Tree} {id : NodeId} {kind : NodeKind} (found : t.kind? id = some kind)
    (d : SynthesizedDeclaration) (body : FunctionBody) :
    (t.synthesize id d body).kind? id = some (.synthesized d) := by
  rw [kind?_synthesize, if_pos rfl, found]
  rfl

theorem bindsName_synthesize {t : Tree} {id other : NodeId} (different : id ≠ other)
    (d : SynthesizedDeclaration) (body : FunctionBody) {name : String} (binds : t.BindsName other name) :
    (t.synthesize id d body).BindsName other name := by
  obtain ⟨i, kind, site, named⟩ := binds
  exact ⟨i, by rw [kind?_synthesize, if_neg different, kind], site, named⟩

/-- A tree with new nodes, the first of which, a statement, becomes a declaration. -/
structure Prepared (t u : Tree) : Prop where
  keeps : t.Keeps u
  statement : u.kind? ⟨t.size⟩ = some .statement
  untouched : Untouched t.nodes → Untouched u.nodes
  text : t.SameText u
  insertions : u.insertions = t.insertions

section Prepared

variable {t u : Tree} (prepared : t.Prepared u)
include prepared

/-- Whatever the statement becomes, the nodes that there were are as they were. -/
theorem Prepared.keeps_modifyNode (change : Node → Node) : t.Keeps (u.modifyNode ⟨t.size⟩ change) := by
  intro id kind found
  rw [kind?, node?_modifyNode, if_neg (ne_of_kind? found)]
  exact prepared.keeps id kind found

theorem Prepared.keeps_synthesize (d : SynthesizedDeclaration) (body : FunctionBody) :
    t.Keeps (u.synthesize ⟨t.size⟩ d body) := by
  intro id kind found
  rw [kind?_synthesize, if_neg (ne_of_kind? found)]
  exact prepared.keeps id kind found

/-- The place of the declaration is told by the tree before. -/
theorem Prepared.declarationPlace (d : SynthesizedDeclaration) (body : FunctionBody) :
    (u.modifyNode ⟨t.size⟩ fun n => { n with kind := .synthesized d }).declarationPlace body =
      t.declarationPlace body :=
  SameText.declarationPlace (prepared.text.trans ⟨rfl, rfl, rfl⟩) body

/-- The declaration joins the row of those that were placed before at its offset. -/
theorem Prepared.insertionsAt_self (d : SynthesizedDeclaration) {body : FunctionBody} {ids : List NodeId}
    (placed : t.insertionsAt (t.declarationPlace body).1 = row (t.declarationPlace body) ids)
    (declared : ∀ id ∈ ids, t.isSynthesizedDeclaration id = true) :
    (u.synthesize ⟨t.size⟩ d body).insertionsAt (t.declarationPlace body).1 =
      row (t.declarationPlace body) (ids ++ [⟨t.size⟩]) := by
  rw [← prepared.declarationPlace d body] at placed ⊢
  refine insertionsAt_placeDeclaration_self ?_ (fun id listed => ?_) ⟨t.size⟩
  · rw [← placed, insertionsAt, insertionsAt, ← prepared.insertions]
    rfl
  · exact (prepared.keeps_modifyNode _).isSynthesizedDeclaration (declared id listed)

theorem Prepared.insertionsAt_of_ne (d : SynthesizedDeclaration) {body : FunctionBody} {offset : Nat}
    (elsewhere : (t.declarationPlace body).1 ≠ offset) :
    (u.synthesize ⟨t.size⟩ d body).insertionsAt offset = t.insertionsAt offset := by
  rw [← prepared.declarationPlace d body] at elsewhere
  refine (insertionsAt_placeDeclaration_of_ne elsewhere ⟨t.size⟩).trans ?_
  rw [insertionsAt, insertionsAt, ← prepared.insertions]
  rfl

end Prepared

/-- Declarations of the tree were placed in a row at the top of the body. -/
structure Row (t : Tree) (function : NodeId) (body : FunctionBody)
    (declarations : List BodyDeclaration) : Prop where
  found : t.blockBody function = .ok body
  untouched : Untouched t.nodes
  placed : ∃ ids, t.insertions = row (t.declarationPlace body) ids ∧
    List.Forall₂ t.Spells ids declarations

theorem isSynthesizedDeclaration_of_mem {t : Tree} {ids : List NodeId}
    {declarations : List BodyDeclaration} (written : List.Forall₂ t.Spells ids declarations)
    {id : NodeId} (listed : id ∈ ids) : t.isSynthesizedDeclaration id = true := by
  induction written with
  | nil => cases listed
  | cons spells _ ih =>
      rcases List.mem_cons.mp listed with rfl | later
      · exact spells.isSynthesizedDeclaration
      · exact ih later

/-- A statement that becomes a declaration joins the row. -/
theorem Row.synthesize {t u : Tree} {function : NodeId} {body : FunctionBody}
    {declarations : List BodyDeclaration} (row : t.Row function body declarations)
    (prepared : t.Prepared u) {declaration : BodyDeclaration} (d : SynthesizedDeclaration)
    (spells : (u.synthesize ⟨t.size⟩ d body).Spells ⟨t.size⟩ declaration) :
    (u.synthesize ⟨t.size⟩ d body).Row function body (declarations ++ [declaration]) ∧
      t.SameText (u.synthesize ⟨t.size⟩ d body) := by
  obtain ⟨ids, insertions, written⟩ := row.placed
  have changed := prepared.keeps_modifyNode fun n => { n with kind := .synthesized d }
  have keeps := prepared.keeps_synthesize d body
  have text : t.SameText (u.synthesize ⟨t.size⟩ d body) := prepared.text.trans ⟨rfl, rfl, rfl⟩
  have later : List.Forall₂ (u.synthesize ⟨t.size⟩ d body).Spells ids declarations :=
    List.Forall₂.imp (fun _ _ => keeps.spells) written
  refine ⟨⟨keeps.blockBody row.found, ?_, ids ++ [⟨t.size⟩], ?_, ?_⟩, text⟩
  · have declared : Untouched (u.modifyNode ⟨t.size⟩ fun n => { n with kind := .synthesized d }).nodes :=
      (prepared.untouched row.untouched).modify _ fun _ _ => rfl
    exact declared.modify _ fun _ plain => plain
  · have same := prepared.declarationPlace d body
    rw [text.declarationPlace, ← same]
    refine insertions_placeDeclaration ?_ (fun id listed => ?_) ⟨t.size⟩
    · rw [same, ← insertions]
      exact prepared.insertions
    · exact changed.isSynthesizedDeclaration (isSynthesizedDeclaration_of_mem written listed)
  · exact List.rel_append later (.cons spells .nil)

/-- The tree with a statement more, which is to become a declaration. -/
def withStatement (t : Tree) (function : NodeId) (body : FunctionBody) : Tree :=
  (t.addNode .statement function body.scope (body.opening + 1)).2

theorem size_withStatement (t : Tree) (function : NodeId) (body : FunctionBody) :
    (t.withStatement function body).size = t.size + 1 :=
  t.size_addNode ..

theorem prepared_withStatement (t : Tree) (function : NodeId) (body : FunctionBody) :
    t.Prepared (t.withStatement function body) where
  keeps := t.keeps_addNode _ _ _ _
  statement := by rw [withStatement, kind?_addNode, if_pos rfl]
  untouched untouched := untouched.appendNode _ _ _ rfl
  text := ⟨rfl, rfl, rfl⟩
  insertions := rfl

theorem Prepared.addBinding {t u : Tree} (prepared : t.Prepared u) (scope : ScopeId) (name : String)
    (kind : BindingKind) : t.Prepared (u.addBinding ⟨t.size⟩ scope name kind).2 where
  keeps := prepared.keeps.trans (u.keeps_addBinding _ _ _ _)
  statement := u.keeps_addBinding _ _ _ _ _ _ prepared.statement
  untouched untouched := (prepared.untouched untouched).appendNode _ _ _ rfl
  text := prepared.text.trans ⟨rfl, rfl, rfl⟩
  insertions := prepared.insertions

/-- Nothing is declared where there is no body in braces. -/
theorem declare_eq_error {t : Tree} {function : NodeId} {e : EditError} (missing : t.blockBody function = .error e)
    (declaration : BodyDeclaration) : t.declare function declaration = .error e := by
  cases declaration with
  | state value setter callee => simp [declare, declareState, missing, bind, Except.bind]
  | null name => simp [declare, declareNull, missing, bind, Except.bind]

/-- Every declaration can be inserted into a body: a new statement becomes the declaration, with its names behind it. -/
theorem exists_declare {t : Tree} {function : NodeId} {body : FunctionBody} (found : t.blockBody function = .ok body)
    (declaration : BodyDeclaration) : ∃ u d, t.Prepared u ∧
      t.declare function declaration = .ok (u.synthesize ⟨t.size⟩ d body) ∧
      (u.synthesize ⟨t.size⟩ d body).SpellsBehind ⟨t.size⟩ declaration := by
  have statement := t.prepared_withStatement function body
  have size := t.size_withStatement function body
  cases declaration with
  | null name =>
      have prepared := statement.addBinding body.scope name .let
      have binds := (t.withStatement function body).bindsName_addBinding ⟨t.size⟩ body.scope name .let
      rw [size] at binds
      refine ⟨_, .null ⟨(t.withStatement function body).size⟩, prepared, ?_, ?_, ?_⟩
      · unfold Tree.declare declareNull
        rw [found]
        rfl
      · rw [kind?_synthesize_self prepared.statement, size]
      · exact bindsName_synthesize (by simp) _ body binds
  | state value setter callee =>
      have first := statement.addBinding body.scope value .const
      have prepared := first.addBinding body.scope setter .const
      have one := (t.withStatement function body).bindsName_addBinding ⟨t.size⟩ body.scope value .const
      have two := ((t.withStatement function body).addBinding ⟨t.size⟩ body.scope value .const).2.bindsName_addBinding
        ⟨t.size⟩ body.scope setter .const
      rw [size] at one
      rw [size_addBinding, size] at two
      refine ⟨_, .state ⟨(t.withStatement function body).size⟩
        ⟨((t.withStatement function body).addBinding ⟨t.size⟩ body.scope value .const).2.size⟩ callee, prepared,
        ?_, ?_, ?_, ?_⟩
      · unfold Tree.declare declareState
        rw [found]
        rfl
      · rw [kind?_synthesize_self prepared.statement, size_addBinding, size]
      · exact bindsName_synthesize (by simp) _ body ((keeps_addBinding _ _ _ _ _).bindsName one)
      · exact bindsName_synthesize (by simp) _ body two

/-- So it joins the row of those before it. -/
theorem Row.declare {t : Tree} {function : NodeId} {body : FunctionBody}
    {declarations : List BodyDeclaration} (row : t.Row function body declarations)
    (declaration : BodyDeclaration) :
    ∃ u, t.declare function declaration = .ok u ∧ u.Row function body (declarations ++ [declaration]) ∧
      t.SameText u := by
  obtain ⟨u, d, prepared, edited, behind⟩ := exists_declare row.found declaration
  exact ⟨_, edited, row.synthesize prepared d behind.spells⟩

/-- So can any number of declarations, one after another. -/
theorem Row.declareAll {t : Tree} {function : NodeId} {body : FunctionBody}
    {declarations : List BodyDeclaration} (row : t.Row function body declarations)
    (more : List BodyDeclaration) :
    ∃ u, t.declareAll function more = .ok u ∧ u.Row function body (declarations ++ more) ∧
      t.SameText u := by
  induction more generalizing t declarations with
  | nil => exact ⟨t, rfl, by rwa [List.append_nil], rfl, rfl, rfl⟩
  | cons d ds ih =>
      obtain ⟨u, edited, next, same⟩ := row.declare d
      obtain ⟨v, others, last, same'⟩ := ih next
      refine ⟨v, ?_, ?_, same.trans same'⟩
      · rw [Tree.declareAll, List.foldlM_cons, edited]
        exact others
      · rwa [List.append_assoc] at last

/-! ### The printed text -/

/-- What a row of insertions prints is the declarations and what is written behind the last. -/
theorem flatMap_row {t : Tree} {place : Nat × String × String} {ids : List NodeId}
    {declarations : List BodyDeclaration} (written : List.Forall₂ t.Spells ids declarations)
    (nonempty : declarations ≠ []) :
    ((row place ids).map fun i => i.lead ++ t.synthesizedText i.node ++ i.trail).flatMap String.toList =
      (BodyDeclaration.sentences place.2.1.toList t.style.semicolons declarations).text ++
        place.2.2.toList := by
  induction written with
  | nil => exact absurd rfl nonempty
  | @cons id d ids ds spells others ih =>
      have text := spells.synthesizedText place.2.1
      have all : (BodyDeclaration.sentences place.2.1.toList t.style.semicolons (d :: ds)).text =
          (place.2.1 ++ t.synthesizedText id).toList ++
            (BodyDeclaration.sentences place.2.1.toList t.style.semicolons ds).text := by
        rw [text, ← Phrase.text_append]
        rfl
      cases others with
      | nil =>
          rw [all]
          simp [row, BodyDeclaration.sentences, Phrase.text]
      | @cons next d' ids ds _ _ =>
          have later := ih (List.cons_ne_nil d' ds)
          rw [all, List.append_assoc, ← later]
          simp [row]

/-- The source is printed with the declarations at the top of the body, one after another. -/
theorem Row.print {t : Tree} {function : NodeId} {body : FunctionBody}
    {declarations : List BodyDeclaration} (row : t.Row function body declarations)
    (nonempty : declarations ≠ []) :
    t.print = .ok (String.ofList (takeBytes (t.declarationPlace body).1 t.source ++
      ((BodyDeclaration.sentences (t.declarationPlace body).2.1.toList t.style.semicolons
        declarations).text ++ (t.declarationPlace body).2.2.toList) ++
      dropBytes (t.declarationPlace body).1 t.source)) := by
  obtain ⟨ids, insertions, written⟩ := row.placed
  have texts : t.insertions.map t.insertionPatch =
      ((Tree.row (t.declarationPlace body) ids).map fun i =>
        i.lead ++ t.synthesizedText i.node ++ i.trail).map
        fun text => ⟨Span.emptyAt (t.declarationPlace body).1, text⟩ := by
    rw [insertions, List.map_map]
    refine List.map_congr_left fun i here => ?_
    rw [insertionPatch, (mem_row here).1]
    rfl
  have some : ((Tree.row (t.declarationPlace body) ids).map fun i =>
      i.lead ++ t.synthesizedText i.node ++ i.trail) ≠ [] := by
    cases written with
    | nil => exact absurd rfl nonempty
    | cons _ _ => simpa using row_ne_nil (List.cons_ne_nil _ _)
  rw [Tree.print, patches_of_unmarked fun index n found => .inl (row.untouched index n found), texts, mergeSort_at, splice_at _ _ some,
    flatMap_row written nonempty]
  rfl

/-! ### Gaps between declarations -/

/-- A line break with blanks behind it. -/
structure IsBreak (gap : List Char) : Prop where
  blank : ∀ c ∈ gap, Unicode.isBlank c = true
  newline : gap.any isLineTerminator = true

theorem IsBreak.append {gap blanks : List Char} (isBreak : IsBreak gap)
    (blank : ∀ c ∈ blanks, Unicode.isBlank c = true) : IsBreak (gap ++ blanks) where
  blank c here := (List.mem_append.mp here).elim (isBreak.blank c) (blank c)
  newline := by rw [List.any_append, isBreak.newline, Bool.true_or]

theorem IsBreak.ne_nil {gap : List Char} (isBreak : IsBreak gap) : gap ≠ [] := by
  rintro rfl
  cases isBreak.newline

theorem isBreak_newline (t : Tree) : IsBreak t.newline.toList := by
  unfold Tree.newline
  split
  · exact ⟨List.all_eq_true.mp rfl, rfl⟩
  · exact ⟨List.all_eq_true.mp rfl, rfl⟩

/-- An indentation consists of blanks and tabs. -/
theorem mem_indentAt {lines : LineTable} {text : List Char} {offset : Nat} {c : Char}
    (here : c ∈ lines.indentAt text offset) : c = ' ' ∨ c = '\t' := by
  have indents := List.all_eq_true.mp List.all_takeWhile c here
  simpa only [Bool.or_eq_true, beq_iff_eq] using indents

theorem mem_indentUnit (unit : IndentUnit) : ∀ c ∈ unit.text.toList, c = ' ' ∨ c = '\t' := by
  have indents : unit.text.toList.all (fun c => c == ' ' || c == '\t') = true := by cases unit <;> rfl
  intro c here
  simpa only [Bool.or_eq_true, beq_iff_eq] using List.all_eq_true.mp indents c here

theorem isBlank_of_indents {c : Char} (indents : c = ' ' ∨ c = '\t') : Unicode.isBlank c = true := by
  rcases indents with rfl | rfl
  · rfl
  · rfl

/-- The text is one line break, with an indentation behind it. -/
def BreaksLine (t : Tree) (text : String) : Prop :=
  ∃ indent, text = t.newline ++ String.ofList indent ∧ ∀ c ∈ indent, c = ' ' ∨ c = '\t'

/-- A line break with the indentation of the line of an offset. -/
def lineBreak (t : Tree) (offset : Nat) : String :=
  t.newline ++ String.ofList (t.lines.indentAt t.source offset)

theorem breaksLine_lineBreak (t : Tree) (offset : Nat) : t.BreaksLine (t.lineBreak offset) :=
  ⟨_, rfl, fun _ here => mem_indentAt here⟩

theorem BreaksLine.deeper {t : Tree} {text : String} (breaks : t.BreaksLine text) (unit : IndentUnit) :
    t.BreaksLine (text ++ unit.text) := by
  obtain ⟨indent, rfl, indents⟩ := breaks
  refine ⟨indent ++ unit.text.toList, ?_, List.forall_mem_append.mpr ⟨indents, mem_indentUnit unit⟩⟩
  rw [String.ofList_append, String.ofList_toList, String.append_assoc]

theorem BreaksLine.isBreak {t : Tree} {text : String} (breaks : t.BreaksLine text) : IsBreak text.toList := by
  obtain ⟨indent, rfl, indents⟩ := breaks
  rw [String.toList_append, String.toList_ofList]
  exact t.isBreak_newline.append fun c here => isBlank_of_indents (indents c here)

/-- Before an inserted declaration stands a line break with an indentation, and behind the last one, if anything. -/
theorem breaksLine_declarationPlace (t : Tree) (body : FunctionBody) :
    t.BreaksLine (t.declarationPlace body).2.1 ∧
      ((t.declarationPlace body).2.2 = "" ∨ t.BreaksLine (t.declarationPlace body).2.2) := by
  have outer := t.breaksLine_lineBreak body.opening
  have inner := outer.deeper t.style.indent
  unfold declarationPlace
  cases body.firstStatement with
  | none =>
      dsimp only
      split
      · exact ⟨inner, .inr outer⟩
      · exact ⟨inner, .inl rfl⟩
  | some first =>
      dsimp only
      split
      · exact ⟨inner, .inr inner⟩
      · exact ⟨t.breaksLine_lineBreak first, .inl rfl⟩

/-! ### Reading the declarations back -/

/-- The text of declarations at the top of a body. -/
def declarationText (t : Tree) (body : FunctionBody) (declarations : List BodyDeclaration) : List Char :=
  (BodyDeclaration.sentences (t.declarationPlace body).2.1.toList t.style.semicolons declarations).text

/-- What stands behind the text of declarations at the top of a body. -/
def behindDeclarations (t : Tree) (body : FunctionBody) : List Char :=
  (t.declarationPlace body).2.2.toList ++ dropBytes (t.declarationPlace body).1 t.source

end Tree

/-- In every source that is parsed declarations can be inserted into a body in braces. They are printed
at one place, and a parser that stands before them reads them as these declarations, one statement each,
and then stands behind their text, if semicolons end them or if what stands behind them begins a
statement of its own. -/
theorem inserted_declarations_stand_alone {source : String} {dialect : Dialect} {t : Tree}
    {function : NodeId} {body : FunctionBody} {declarations : List BodyDeclaration}
    (parsed : parse source dialect = .ok t) (found : t.blockBody function = .ok body)
    (nonempty : declarations ≠ []) (valid : ∀ d ∈ declarations, d.Valid) :
    ∃ u, t.declareAll function declarations = .ok u ∧
      u.print = .ok (String.ofList (takeBytes (t.declarationPlace body).1 source.toList ++
        t.declarationText body declarations ++ t.behindDeclarations body)) ∧
      ∀ (n : Nat) (c : Grammar.Context) (s : Grammar.State), c.dialect = dialect → 2 < c.bound →
        (∀ d ∈ declarations, s.depth + d.levels ≤ Grammar.maxDepth) →
        ∀ place behind : Cursor, place.rest = t.declarationText body declarations ++ t.behindDeclarations body →
        behind = ⟨place.offset + byteLength (t.declarationText body declarations), t.behindDeclarations body⟩ →
        s.previousEnd = place → s.token = Token.read place →
        (t.style.semicolons = true ∨ Grammar.standsAlone dialect.typescript (Token.read behind) = true) →
        ∃ s', Grammar.items (Grammar.derive (n + 10)) declarations.length c s = .ok () s' ∧
          s.Adds s' (BodyDeclaration.allNodes s.opened.head? s.exporting s.nodes.size declarations) ∧
          s'.token = Token.read behind ∧ s'.previousEnd = behind := by
  have row : t.Row function body [] :=
    ⟨found, untouched_of_parse parsed, [], (source_of_parse parsed).2, .nil⟩
  obtain ⟨u, edited, last, same⟩ := row.declareAll declarations
  rw [List.nil_append] at last
  refine ⟨u, edited, ?_, ?_⟩
  · rw [last.print nonempty, same.declarationPlace, same.source, same.style, (source_of_parse parsed).1]
    simp only [Tree.declarationText, Tree.behindDeclarations, List.append_assoc, (source_of_parse parsed).1]
  · rintro n c s rfl bounded shallow ⟨offset, rest⟩ _ rfl rfl previous here next
    have isBreak := (t.breaksLine_declarationPlace body).1.isBreak
    have ends : t.style.semicolons = true ∨ endsIdentifier (t.behindDeclarations body) = true :=
      next.imp id fun alone =>
        Grammar.endsIdentifier_of_endsStatement (Grammar.endsStatement_of_standsAlone alone)
    have fits := Grammar.fits_sentences valid isBreak.blank isBreak.ne_nil ends
    exact Grammar.derive_declarations valid isBreak.newline next bounded shallow (fits.reads offset) here previous

end BindingRepair.Script
