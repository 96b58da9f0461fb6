/-
# Edits never overlap

The text of an edit takes the place of a name, or of braces with nothing in them, or it goes to an offset that lies in
no such stretch. Different edits take different stretches, and all of them lie apart. So however a parsed tree has been
edited, the patches in their order begin where the ones before them have ended, and the tree is printed.
-/

import BindingRepair.Proofs.Spacing
import BindingRepair.Proofs.Splicing

namespace BindingRepair

/-- One of the spans ends before the other begins, or where it begins. -/
def Text.Span.Apart (first second : Text.Span) : Prop :=
  first.stop ≤ second.start ∨ second.stop ≤ first.start

theorem Text.Span.Apart.symm {first second : Text.Span} (apart : first.Apart second) : second.Apart first :=
  Or.symm apart

namespace Script

open Text Cursor

/-! ### Patches in order -/

namespace Patch

theorem precedes_iff {a b : Patch} : a.precedes b = true ↔
    a.span.start < b.span.start ∨ a.span.start = b.span.start ∧ a.span.stop ≤ b.span.stop := by
  simp [precedes]

theorem precedes_trans (a b c : Patch) (first : a.precedes b = true) (second : b.precedes c = true) :
    a.precedes c = true := by
  rw [precedes_iff] at *
  omega

theorem precedes_total (a b : Patch) : (a.precedes b || b.precedes a) = true := by
  rw [Bool.or_eq_true, precedes_iff, precedes_iff]
  omega

/-- Of two patches that lie apart the one that comes first has ended where the other begins, even if both begin
at one offset: then the first is empty. -/
theorem stop_le_start {a b : Patch} (first : a.precedes b = true) (apart : a.span.Apart b.span)
    (ordered : b.span.start ≤ b.span.stop) : a.span.stop ≤ b.span.start := by
  rcases apart with before | behind
  · exact before
  · rw [precedes_iff] at first
    omega

end Patch

/-- Patches one behind another can be spliced into a text. -/
theorem exists_splice (offset : Nat) (rest : List Char) {patches : List Patch}
    (start : ∀ p ∈ patches, offset ≤ p.span.start)
    (behind : patches.Pairwise fun p q => p.span.stop ≤ q.span.start) : ∃ out, splice offset rest patches = .ok out := by
  induction patches generalizing offset rest with
  | nil => exact ⟨rest, rfl⟩
  | cons p patches ih =>
      obtain ⟨next, others⟩ := List.pairwise_cons.mp behind
      obtain ⟨after, spliced⟩ := ih p.span.stop (dropBytes (p.span.stop - offset) rest) next others
      refine ⟨takeBytes (p.span.start - offset) rest ++ p.text.toList ++ after, ?_⟩
      rw [splice, if_neg (Nat.not_lt.mpr (start p List.mem_cons_self)), spliced]
      rfl

namespace Tree

variable {t u : Tree}

/-! ### Stretches that texts take the place of -/

/-- A text can take the place of the span: it is that of a name, or the braces of an import with nothing in
them. -/
inductive IsReplaceable (t : Tree) (id : NodeId) : Span → Prop
  | name {n : Node} (found : t.nodes[id.index]? = some n) (identifier : n.kind.isIdentifier = true) :
      IsReplaceable t id n.span
  | braces {i : ImportNode} {named : NamedImports} (listed : (id, i) ∈ t.imports) (here : i.named = some named)
      (none : named.specifiers = []) : IsReplaceable t id ⟨named.opening, named.closing + 1⟩

/-- The offset lies in no stretch that a text can take the place of, except at its ends. -/
def IsBetween (t : Tree) (offset : Nat) : Prop :=
  ∀ id span, t.IsReplaceable id span → span.Apart (Span.emptyAt offset)

namespace IsLaidOut

variable (laidOut : t.IsLaidOut)
include laidOut

/-- The braces of an import lie in the import. -/
theorem braces_in_import {id : NodeId} {i : ImportNode} {named : NamedImports} (listed : (id, i) ∈ t.imports)
    (here : i.named = some named) : ∃ n, t.nodes[id.index]? = some n ∧ n.IsWhole ∧ named.Fits t.nodes n.span := by
  obtain ⟨n, found, kind, parent, -⟩ := laidOut.exists_of_mem_imports listed
  exact ⟨n, found, .inr ⟨NodeKind.isImport_iff.mpr ⟨i, kind⟩, parent⟩,
    (laidOut.imports _ n i found kind).named named here⟩

/-- No name reaches into braces with nothing in them. -/
theorem name_apart_braces {id other : NodeId} {n : Node} (found : t.nodes[id.index]? = some n)
    (identifier : n.kind.isIdentifier = true) {i : ImportNode} {named : NamedImports} (listed : (other, i) ∈ t.imports)
    (here : i.named = some named) (none : named.specifiers = []) :
    n.span.Apart ⟨named.opening, named.closing + 1⟩ := by
  obtain ⟨m, -, -, fits⟩ := laidOut.braces_in_import listed here
  exact (fits.empty none _ n found identifier).imp_right (Nat.le_trans fits.closing)

theorem braces_before_braces {id other : NodeId} {i j : ImportNode} {named named' : NamedImports}
    (listed : (id, i) ∈ t.imports) (here : i.named = some named) (listed' : (other, j) ∈ t.imports)
    (here' : j.named = some named') (before : id.index < other.index) : named.closing + 1 ≤ named'.opening := by
  obtain ⟨n, found, whole, fits⟩ := laidOut.braces_in_import listed here
  obtain ⟨m, there, -, fits'⟩ := laidOut.braces_in_import listed' here'
  obtain ⟨m', there', -, parent, -⟩ := laidOut.exists_of_mem_imports listed'
  obtain rfl := Option.some.inj (there.symm.trans there')
  calc named.closing + 1 ≤ n.span.stop := fits.closing
    _ ≤ m.span.start := laidOut.stop_le_import found there whole parent before
    _ ≤ named'.opening := fits'.opening

/-- The stretches of different nodes lie apart. -/
theorem apart_of_isReplaceable {a b : NodeId} {first second : Span} (one : t.IsReplaceable a first)
    (other : t.IsReplaceable b second) (different : a ≠ b) : first.Apart second := by
  have ordered : a.index < b.index ∨ b.index < a.index :=
    Nat.lt_or_gt_of_ne fun same => different (congrArg NodeId.mk same)
  cases one with
  | name found identifier =>
      cases other with
      | name found' identifier' =>
          rcases ordered with before | behind
          · exact .inl (laidOut.later _ _ _ _ found found' before identifier)
          · exact .inr (laidOut.later _ _ _ _ found' found behind identifier')
      | braces listed here none => exact laidOut.name_apart_braces found identifier listed here none
  | braces listed here none =>
      cases other with
      | name found identifier => exact (laidOut.name_apart_braces found identifier listed here none).symm
      | braces listed' here' none' =>
          rcases ordered with before | behind
          · exact .inl (laidOut.braces_before_braces listed here listed' here' before)
          · exact .inr (laidOut.braces_before_braces listed' here' listed here behind)

/-- A text can be inserted behind a name. -/
theorem isBetween_of_endsName {id : NodeId} {stop : Nat} (ends : EndsName t.nodes id stop) : t.IsBetween stop := by
  obtain ⟨n, found, identifier, rfl⟩ := ends
  intro other span replaceable
  by_cases same : other = id
  · subst same
    cases replaceable with
    | name found' identifier' =>
        obtain rfl := Option.some.inj (found.symm.trans found')
        exact .inl (Nat.le_refl _)
    | braces listed here none =>
        obtain ⟨m, found', kind, -⟩ := laidOut.exists_of_mem_imports listed
        obtain rfl := Option.some.inj (found.symm.trans found')
        rw [kind] at identifier
        cases identifier
  · rcases laidOut.apart_of_isReplaceable replaceable (.name found identifier) same with before | behind
    · exact .inl (Nat.le_trans before (laidOut.layout.span _ n found).ordered)
    · exact .inr behind

/-- A text can be inserted in a gap. -/
theorem isBetween_of_receives {offset : Nat} (receives : t.Receives offset) : t.IsBetween offset := by
  obtain ⟨place, gap, start, stop⟩ := receives
  intro id span replaceable
  cases replaceable with
  | name found identifier =>
      rcases gap _ _ found (.inl identifier) with before | behind
      · exact .inl (Nat.le_trans before start)
      · exact .inr (Nat.le_trans stop behind)
  | braces listed here none =>
      obtain ⟨n, found, whole, fits⟩ := laidOut.braces_in_import listed here
      rcases gap _ n found whole with before | behind
      · exact .inl (Nat.le_trans fits.closing (Nat.le_trans before start))
      · exact .inr (Nat.le_trans stop (Nat.le_trans behind fits.opening))

end IsLaidOut

/-! ### Where patches go -/

/-- The nodes that are written where the stretch of a node was: the names that have been added to an import, or
the node itself. -/
def replacing (u : Tree) (id : NodeId) : List NodeId :=
  match u.import? id with
  | some i => i.added
  | none => [id]

theorem replacing_of_import {id : NodeId} {i : ImportNode} (isImport : u.import? id = some i) :
    u.replacing id = i.added := by
  rw [replacing, isImport]

theorem replacing_of_identifier {id : NodeId} {i : IdentifierNode} (isIdentifier : u.identifier? id = some i) :
    u.replacing id = [id] := by
  obtain ⟨n, found, kind⟩ := identifier?_eq_some_iff.mp isIdentifier
  rw [replacing, import?, kind?, found, Option.map_some, kind]

/-- The text of an edit is inserted between stretches, or it takes the place of one. -/
theorem IsLaidOut.place_of_records (laidOut : t.IsLaidOut) (placed : u.PlacesIn t) {p : Patch} {nodes : List NodeId}
    (records : p.Records t u nodes) : (∃ offset, p.span = Span.emptyAt offset ∧ t.IsBetween offset) ∨
      ∃ id, t.IsReplaceable id p.span ∧ nodes = u.replacing id := by
  cases records with
  | renamed id i j site was now binds span text all =>
      obtain ⟨n, found, kind⟩ := identifier?_eq_some_iff.mp was
      have same : p.span = n.span := by rw [span, spanOf, found]; rfl
      refine .inr ⟨id, same ▸ .name found ?_, all.trans (replacing_of_identifier now).symm⟩
      rw [kind]
      rfl
  | specifiers id i added named last was now braces behind span =>
      obtain ⟨n, -, -, fits⟩ := laidOut.braces_in_import was braces
      exact .inl ⟨_, span, laidOut.isBetween_of_endsName (fits.specifiers last (List.mem_of_getLast? behind))⟩
  | braces id i added named was now braces none span text all =>
      exact .inr ⟨id, span ▸ .braces was braces none, all.trans (replacing_of_import now).symm⟩
  | clause id i added name was now bare default span =>
      obtain ⟨n, found, kind, -⟩ := laidOut.exists_of_mem_imports was
      obtain ⟨stop, ends⟩ := (laidOut.imports _ n i found kind).defaultName name default
      have same : (t.spanOf name).stop = stop := by
        obtain ⟨m, there, -, rfl⟩ := ends
        have isNode : t.node? name = some m := there
        rw [spanOf, isNode]
        rfl
      exact .inl ⟨_, span, same ▸ laidOut.isBetween_of_endsName ends⟩
  | declaration i listed new span => exact .inl ⟨_, span, laidOut.isBetween_of_receives (placed i listed)⟩

/-- The texts of edits that write different nodes go to places that lie apart. -/
theorem IsLaidOut.apart_of_records (laidOut : t.IsLaidOut) (placed : u.PlacesIn t) {p q : Patch}
    {nodes others : List NodeId} (first : p.Records t u nodes) (second : q.Records t u others)
    (some : nodes ≠ []) (disjoint : nodes.Disjoint others) : p.span.Apart q.span := by
  rcases laidOut.place_of_records placed first with ⟨offset, one, between⟩ | ⟨id, one, all⟩
  · rcases laidOut.place_of_records placed second with ⟨offset', other, -⟩ | ⟨id', other, -⟩
    · rw [one, other]
      exact Nat.le_total offset offset'
    · rw [one]
      exact (between id' _ other).symm
  · rcases laidOut.place_of_records placed second with ⟨offset', other, between⟩ | ⟨id', other, all'⟩
    · rw [other]
      exact between id _ one
    · refine laidOut.apart_of_isReplaceable one other ?_
      rintro rfl
      rw [all', ← all] at disjoint
      exact some (List.eq_nil_iff_forall_not_mem.mpr fun _ here => disjoint here here)

/-- Every patch writes something. -/
theorem ne_nil_of_mem {entry : Patch × List NodeId} (here : entry ∈ u.renamings ++ u.additions ++ u.declarations) :
    entry.2 ≠ [] := by
  rcases List.mem_append.mp here with here | here
  · rcases List.mem_append.mp here with here | here
    · obtain ⟨x, -, labels⟩ := List.mem_filterMap.mp here
      obtain ⟨p, -, rfl⟩ := Option.map_eq_some_iff.mp labels
      exact List.cons_ne_nil _ _
    · obtain ⟨⟨id, i⟩, -, labels⟩ := List.mem_filterMap.mp here
      obtain ⟨p, due, rfl⟩ := Option.map_eq_some_iff.mp labels
      rintro none
      dsimp only at none
      rw [importPatch?, none] at due
      cases due
  · obtain ⟨i, -, rfl⟩ := List.mem_map.mp here
    exact List.cons_ne_nil _ _

/-- The patches of an edited tree, in their order, begin where the ones before them have ended. -/
theorem Descends.pairwise_patches (descends : t.Descends u) (pristine : t.IsPristine) (laidOut : t.IsLaidOut)
    (placed : u.PlacesIn t) : u.patches.Pairwise fun p q => p.span.stop ≤ q.span.start := by
  obtain ⟨labelled, same, perm⟩ := u.exists_labelled
  have records (entry : Patch × List NodeId) (here : entry ∈ labelled) : entry.1.Records t u entry.2 :=
    descends.records_of_mem pristine (perm.mem_iff.mp here)
  have nodup : (labelled.flatMap (·.2)).Nodup :=
    (perm.flatMap_right _).nodup_iff.mpr (descends.nodup_flatMap_nodes pristine)
  have sorted : u.patches.Pairwise fun p q => p.precedes q = true := by
    rw [patches_eq]
    exact List.pairwise_mergeSort Patch.precedes_trans Patch.precedes_total _
  -- No node is written twice, so any two patches lie apart; which of them ends first is told by their order.
  rw [← same, List.pairwise_map] at sorted ⊢
  refine ((List.nodup_flatMap.mp nodup).2.and sorted).imp_of_mem ?_
  rintro a b first second ⟨disjoint, inOrder⟩
  have some : a.2 ≠ [] := ne_nil_of_mem (perm.mem_iff.mp first)
  exact Patch.stop_le_start inOrder
    (laidOut.apart_of_records placed (records a first) (records b second) some disjoint)
    (descends.on_of_records pristine (records b second)).ordered

/-- A tree whose texts go into gaps is printed. -/
theorem Descends.exists_print (descends : t.Descends u) (pristine : t.IsPristine) (laidOut : t.IsLaidOut)
    (placed : u.PlacesIn t) : ∃ out, splice 0 u.source u.patches = .ok out ∧ u.print = .ok (String.ofList out) := by
  obtain ⟨out, spliced⟩ := exists_splice 0 u.source
    (fun p _ => Nat.zero_le p.span.start) (descends.pairwise_patches pristine laidOut placed)
  refine ⟨out, spliced, ?_⟩
  rw [print, spliced]
  rfl

end Tree

/-! ### The printer -/

/-- Edits never overlap. A tree that was read from a source without line and paragraph separators is printed
after any edits, with names added only to imports that are statements of the module. -/
theorem print_never_overlaps {source : String} {dialect : Dialect} {t : Tree}
    (plain : HasPlainLines source.toList) (parsed : parse source dialect = .ok t) {edits : List Edit}
    (allowed : t.allowsAll edits = true) : ∃ out, (t.editAll edits).print = .ok out := by
  have pristine := isPristine_of_parse parsed
  have laidOut := isLaidOut_of_parse parsed
  have accounts : t.Accounts (t.editAll edits) := pristine.accounts.editAll pristine edits allowed
  have placed : (t.editAll edits).PlacesIn t := by
    rw [← (source_of_parse parsed).1] at plain
    exact pristine.placesIn_editAll laidOut plain edits
  obtain ⟨out, -, printed⟩ := accounts.exists_print pristine laidOut placed
  exact ⟨String.ofList out, printed⟩

/-- A default import with nothing in its braces, a comment behind it, and two functions. -/
def crowdedSource : String :=
  "import a, \x7b \x7d from 'm' // first\nfunction f(\x7b c \x7d) \x7b 'use strict'; return c \x7d\nfunction g() \x7b\x7d\n"

/-- The names of the import, its braces and the place behind it are all edited, and both functions. -/
def crowdedEdits : List Edit :=
  [.rename ⟨2⟩ "b", .addImportNames ⟨1⟩ ["d", "e"], .insertImport "n" ["h"], .declareState ⟨3⟩ "x" "setX" "useState",
    .rename ⟨5⟩ "z", .declareNull ⟨3⟩ "y", .declareNull ⟨10⟩ "w", .insertImport "o" ["k"]]

set_option maxRecDepth 100000 in
/-- Five texts are inserted, two of them at one offset and two more at another. -/
theorem crowded_edits_are_printed : HasPlainLines crowdedSource.toList ∧ ∃ t,
    parse crowdedSource .javascript = .ok t ∧ t.allowsAll crowdedEdits = true ∧
      (t.editAll crowdedEdits).insertions.map (·.offset) = [31, 66, 66, 91, 31] ∧
      ∃ out, (t.editAll crowdedEdits).print = .ok out := by
  have plain : HasPlainLines crowdedSource.toList := by decide +kernel
  obtain ⟨t, parsed, test⟩ := exists_ok_of_test (parse crowdedSource .javascript)
    (fun t => t.allowsAll crowdedEdits &&
      (t.editAll crowdedEdits).insertions.map (·.offset) == [31, 66, 66, 91, 31]) (by decide +kernel)
  rw [Bool.and_eq_true, beq_iff_eq] at test
  exact ⟨plain, t, parsed, test.1, test.2, print_never_overlaps plain parsed test.1⟩

end Script

end BindingRepair
