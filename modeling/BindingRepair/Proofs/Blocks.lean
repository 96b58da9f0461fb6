/-
# Texts at one offset

Patches are spliced in the order of their spans, and those with one span in the order in which they were recorded. So
the texts that go to an offset stand together in what is printed, between what becomes of the source in front of the
offset and what becomes of the source behind it.
-/

import BindingRepair.Proofs.Overlaps

namespace BindingRepair.Script

open Text Cursor

/-! ### Patches at an offset -/

namespace Patch

/-- The patch inserts its text at the offset. -/
def insertsAt (offset : Nat) (p : Patch) : Bool :=
  p.span == Span.emptyAt offset

/-- The patch begins before the offset. -/
def begins (offset : Nat) (p : Patch) : Bool :=
  p.span.start < offset

/-- The patch comes after those that insert their texts at the offset. -/
def follows (offset : Nat) (p : Patch) : Bool :=
  !p.begins offset && !p.insertsAt offset

theorem insertsAt_iff {offset : Nat} {p : Patch} : p.insertsAt offset = true ↔ p.span = Span.emptyAt offset :=
  beq_iff_eq

theorem insertsAt_iff_ends {offset : Nat} {p : Patch} :
    p.insertsAt offset = true ↔ p.span.start = offset ∧ p.span.stop = offset := by
  rw [insertsAt_iff, Span.emptyAt]
  obtain ⟨⟨start, stop⟩, text⟩ := p
  exact Span.mk.injEq .. |>.to_iff

theorem span_ne_of_begins {offset : Nat} {p : Patch} (before : p.begins offset = true) :
    p.span ≠ Span.emptyAt offset := by
  intro same
  rw [begins, same, decide_eq_true_eq] at before
  exact Nat.lt_irrefl offset before

theorem span_ne_of_follows {offset : Nat} {p : Patch} (behind : p.follows offset = true) :
    p.span ≠ Span.emptyAt offset := by
  intro same
  rw [follows, insertsAt_iff.mpr same, Bool.not_true, Bool.and_false] at behind
  cases behind

end Patch

/-- The patches at one offset stay in the order in which they were recorded. -/
theorem filter_mergeSort_insertsAt (patches : List Patch) (offset : Nat) :
    (patches.mergeSort Patch.precedes).filter (·.insertsAt offset) = patches.filter (·.insertsAt offset) := by
  have equal : (patches.filter (·.insertsAt offset)).Pairwise fun a b => a.precedes b = true := by
    refine List.pairwise_of_forall_mem_list fun a first b second => ?_
    have one := Patch.insertsAt_iff_ends.mp (List.mem_filter.mp first).2
    have other := Patch.insertsAt_iff_ends.mp (List.mem_filter.mp second).2
    rw [Patch.precedes_iff]
    omega
  have stable := List.sublist_mergeSort Patch.precedes_trans Patch.precedes_total equal List.filter_sublist
  have kept := stable.filter (·.insertsAt offset)
  rw [List.filter_filter] at kept
  simp only [Bool.and_self] at kept
  exact (kept.eq_of_length ((List.mergeSort_perm patches Patch.precedes).filter _).length_eq.symm).symm

/-- Patches in their order are those that begin before an offset, those that insert their texts there, and the
others. -/
theorem eq_filters_of_sorted {patches : List Patch} (offset : Nat)
    (sorted : patches.Pairwise fun a b => a.precedes b = true) (ordered : ∀ p ∈ patches, p.span.start ≤ p.span.stop) :
    patches = patches.filter (·.begins offset) ++ patches.filter (·.insertsAt offset) ++
      patches.filter (·.follows offset) := by
  induction patches with
  | nil => rfl
  | cons p patches ih =>
      obtain ⟨first, sorted⟩ := List.pairwise_cons.mp sorted
      obtain ⟨order, ordered⟩ := List.forall_mem_cons.mp ordered
      specialize ih sorted ordered
      simp only [Patch.precedes_iff] at first
      -- What does not begin before the offset has none behind it that does.
      have noneBegins (later : offset ≤ p.span.start) : patches.filter (·.begins offset) = [] := by
        rw [List.filter_eq_nil_iff]
        intro q here
        have behind := first q here
        simp only [Patch.begins, decide_eq_true_eq]
        omega
      by_cases before : p.span.start < offset
      · have inserts : ¬p.insertsAt offset = true := by
          rw [Patch.insertsAt_iff_ends]
          omega
        have begins : p.begins offset = true := by simpa [Patch.begins] using before
        have follows : ¬p.follows offset = true := by simp [Patch.follows, begins]
        rw [List.filter_cons_of_pos begins, List.filter_cons_of_neg inserts, List.filter_cons_of_neg follows,
          List.cons_append, List.cons_append, ← ih]
      · have begins : ¬p.begins offset = true := by simpa [Patch.begins] using before
        have nothing := noneBegins (Nat.le_of_not_lt before)
        rw [List.filter_cons_of_neg begins, nothing, List.nil_append]
        rw [nothing, List.nil_append] at ih
        by_cases inserts : p.insertsAt offset = true
        · have follows : ¬p.follows offset = true := by simp [Patch.follows, inserts]
          rw [List.filter_cons_of_pos inserts, List.filter_cons_of_neg follows, List.cons_append, ← ih]
        · have follows : p.follows offset = true := by simp [Patch.follows, begins, inserts]
          have noneInserts : patches.filter (·.insertsAt offset) = [] := by
            rw [List.filter_eq_nil_iff]
            intro q here
            have behind := first q here
            rw [Patch.insertsAt_iff_ends] at inserts ⊢
            omega
          rw [noneInserts, List.nil_append] at ih
          rw [List.filter_cons_of_neg inserts, noneInserts, List.nil_append, List.filter_cons_of_pos follows, ← ih]

/-! ### Splicing up to an offset -/

theorem splice_cons_eq_ok_iff {offset : Nat} {rest out : List Char} {p : Patch} {patches : List Patch} :
    splice offset rest (p :: patches) = .ok out ↔ offset ≤ p.span.start ∧
      ∃ after, splice p.span.stop (dropBytes (p.span.stop - offset) rest) patches = .ok after ∧
        out = takeBytes (p.span.start - offset) rest ++ p.text.toList ++ after := by
  rw [splice]
  by_cases overlap : p.span.start < offset
  · rw [if_pos overlap]
    constructor
    · intro failed
      cases failed
    · rintro ⟨behind, -⟩
      exact absurd overlap (Nat.not_lt.mpr behind)
  · rw [if_neg overlap]
    cases splice p.span.stop (dropBytes (p.span.stop - offset) rest) patches with
    | error e =>
        constructor
        · intro failed
          cases failed
        · rintro ⟨-, after, failed, -⟩
          cases failed
    | ok after =>
        constructor
        · intro spliced
          exact ⟨Nat.le_of_not_lt overlap, after, rfl, (Except.ok.inj spliced).symm⟩
        · rintro ⟨-, after', same, rfl⟩
          rw [Except.ok.inj same]
          rfl

/-- A span between two offsets divides the text between them. -/
theorem exists_division {origin : Cursor} {offset o : Nat} {front rest : List Char} {span : Span}
    (reaches : origin.Reaches ⟨offset, front ++ rest⟩) (toEnd : origin.Reaches ⟨o, rest⟩) (on : span.On origin)
    (behind : offset ≤ span.start) (before : span.stop ≤ o) : ∃ kept removed left,
      front = kept ++ removed ++ left ∧ span.start = offset + byteLength kept ∧
        span.stop = offset + byteLength (kept ++ removed) ∧ o = span.stop + byteLength left ∧
        origin.Reaches ⟨span.stop, left ++ rest⟩ := by
  obtain ⟨⟨start, first⟩, toStart, rfl⟩ := on.start
  obtain ⟨⟨stop, second⟩, toStop, rfl⟩ := on.stop
  obtain ⟨kept, parts, length⟩ := reaches.of_offset_le toStart behind
  obtain ⟨removed, parts', length'⟩ := toStart.of_offset_le toStop on.ordered
  obtain ⟨left, parts'', length''⟩ := toStop.of_offset_le toEnd before
  dsimp only at parts parts' parts'' length length' length''
  refine ⟨kept, removed, left, ?_, length, ?_, length'', parts'' ▸ toStop⟩
  · apply List.append_cancel_right
    rw [parts, parts', parts'']
    simp only [List.append_assoc]
  · rw [byteLength_append]
    omega

/-- What is spliced up to an offset is told by the text in front of it, and what is spliced from there on by the text
behind it, if a text is inserted at the offset. -/
theorem splice_append {origin : Cursor} {offset o : Nat} {front rest : List Char}
    (reaches : origin.Reaches ⟨offset, front ++ rest⟩) (there : o = offset + byteLength front) {earlier : List Patch}
    (on : ∀ p ∈ earlier, p.span.On origin ∧ p.span.stop ≤ o) {text : String} {others : List Patch} {out : List Char}
    (spliced : splice offset (front ++ rest) (earlier ++ ⟨Span.emptyAt o, text⟩ :: others) = .ok out) :
    ∃ before after, splice offset front earlier = .ok before ∧
      splice o rest (⟨Span.emptyAt o, text⟩ :: others) = .ok after ∧ out = before ++ after := by
  have toEnd : origin.Reaches ⟨o, rest⟩ := reaches.trans ⟨front, rfl, there⟩
  induction earlier generalizing offset front out with
  | nil =>
      obtain ⟨-, after, later, rfl⟩ := splice_cons_eq_ok_iff.mp spliced
      have length : (Span.emptyAt o).stop - offset = byteLength front := by
        rw [there]
        exact Nat.add_sub_cancel_left ..
      have same : (Span.emptyAt o).start - offset = byteLength front := length
      rw [length, dropBytes_byteLength] at later
      refine ⟨front, text.toList ++ after, rfl, splice_cons_eq_ok_iff.mpr ⟨Nat.le_refl _, after, ?_, ?_⟩, ?_⟩
      · rw [show (Span.emptyAt o).stop - o = 0 from Nat.sub_self o, dropBytes_zero]
        exact later
      · rw [show (Span.emptyAt o).start - o = 0 from Nat.sub_self o, takeBytes_zero]
        rfl
      · rw [same, takeBytes_byteLength, List.append_assoc]
  | cons p earlier ih =>
      obtain ⟨⟨span, before⟩, more⟩ := List.forall_mem_cons.mp on
      obtain ⟨behind, after, later, rfl⟩ := splice_cons_eq_ok_iff.mp spliced
      -- The text in front of the offset goes on behind the patch.
      obtain ⟨kept, removed, left, rfl, start, stop, next, toNext⟩ := exists_division reaches toEnd span behind before
      have drops (text : List Char) : dropBytes (p.span.stop - offset) (kept ++ removed ++ left ++ text) =
          left ++ text := by
        rw [stop, Nat.add_sub_cancel_left, List.append_assoc, dropBytes_byteLength]
      have takes (text : List Char) : takeBytes (p.span.start - offset) (kept ++ removed ++ left ++ text) = kept := by
        rw [start, Nat.add_sub_cancel_left, List.append_assoc, List.append_assoc, takeBytes_byteLength]
      rw [drops] at later
      obtain ⟨before', after', spliced', rest', rfl⟩ := ih toNext next more later
      refine ⟨_, after', splice_cons_eq_ok_iff.mpr ⟨behind, before', ?_, rfl⟩, rest', ?_⟩
      · rw [← List.append_nil (kept ++ removed ++ left), drops, List.append_nil]
        exact spliced'
      · have front' := takes []
        rw [List.append_nil] at front'
        rw [takes, front']
        simp only [List.append_assoc]

/-! ### Blocks -/

namespace Tree

/-- All that is written at an offset is one block of what is printed. In front of it stands what becomes of the source
up to the offset, behind it what becomes of the source from there on, and nothing else is inserted there. -/
structure PrintsAt (u : Tree) (offset : Nat) (block before after : List Char) : Prop where
  printed : u.print = .ok (String.ofList (before ++ block ++ after))
  parts : ∃ front behind earlier here later, u.source = front ++ behind ∧ byteLength front = offset ∧
    u.patches = earlier ++ here ++ later ∧ (∀ p ∈ here, p.span = Span.emptyAt offset) ∧
    block = here.flatMap (·.text.toList) ∧ (∀ p ∈ earlier ++ later, p.span ≠ Span.emptyAt offset) ∧
    splice 0 front earlier = .ok before ∧ splice offset behind later = .ok after

variable {t u : Tree}

theorem sorted_patches (u : Tree) : u.patches.Pairwise fun a b => a.precedes b = true := by
  rw [patches_eq]
  exact List.pairwise_mergeSort Patch.precedes_trans Patch.precedes_total _

namespace Descends

variable (descends : t.Descends u) (pristine : t.IsPristine)
include descends pristine

theorem on_of_mem_patches {p : Patch} (here : p ∈ u.patches) : p.span.On (start t.source) := by
  obtain ⟨labelled, same, perm⟩ := u.exists_labelled
  rw [← same] at here
  obtain ⟨entry, listed, rfl⟩ := List.mem_map.mp here
  exact descends.on_of_records pristine (descends.records_of_mem pristine (perm.mem_iff.mp listed))

/-- The texts that are recorded for an offset are the block that is printed there. -/
theorem printsAt (laidOut : t.IsLaidOut) (placed : u.PlacesIn t) {offset : Nat} {texts : List String}
    (recorded : u.allPatches.filter (·.insertsAt offset) = texts.map fun text => ⟨Span.emptyAt offset, text⟩)
    (some : texts ≠ []) : ∃ before after, u.PrintsAt offset (texts.flatMap String.toList) before after := by
  obtain ⟨text, texts, rfl⟩ := List.exists_cons_of_ne_nil some
  have on (p : Patch) (here : p ∈ u.patches) : p.span.On (start t.source) := descends.on_of_mem_patches pristine here
  have parts := eq_filters_of_sorted offset u.sorted_patches fun p here => (on p here).ordered
  rw [show u.patches.filter (·.insertsAt offset) = _ from
    (filter_mergeSort_insertsAt u.allPatches offset).trans recorded, List.append_assoc] at parts
  generalize earlierIs : u.patches.filter (·.begins offset) = earlier at parts
  generalize laterIs : u.patches.filter (·.follows offset) = later at parts
  have inOrder := descends.pairwise_patches pristine laidOut placed
  rw [parts] at inOrder on
  have marks : (start t.source).Marks offset :=
    (on ⟨Span.emptyAt offset, text⟩ (by simp)).start
  obtain ⟨place, reaches, rfl⟩ := marks
  obtain ⟨front, source, length⟩ := id reaches
  obtain ⟨out, spliced, printed⟩ := descends.exists_print pristine laidOut placed
  have before (p : Patch) (here : p ∈ earlier) : p.span.On (start t.source) ∧ p.span.stop ≤ place.offset := by
    refine ⟨on p (List.mem_append_left _ here), ?_⟩
    exact (List.pairwise_append.mp inOrder).2.2 p here ⟨Span.emptyAt place.offset, text⟩ (by simp)
  have whole : t.source = front ++ place.rest := source
  rw [descends.source_eq, whole, parts, List.map_cons, List.cons_append] at spliced
  obtain ⟨first, second, toFirst, toSecond, rfl⟩ :=
    splice_append (whole ▸ Reaches.refl (start t.source)) length before spliced
  have behind := splice_here_append place.offset place.rest (text :: texts) later
  rw [List.map_cons, List.cons_append, toSecond] at behind
  cases last : splice place.offset place.rest later with
  | error e =>
      rw [last] at behind
      cases behind
  | ok after =>
      rw [last] at behind
      obtain rfl := Except.ok.inj behind
      refine ⟨first, after, by rw [printed, List.append_assoc], front, place.rest, earlier,
        (text :: texts).map fun text => ⟨Span.emptyAt place.offset, text⟩, later, descends.source_eq.trans whole,
        (length.trans (Nat.zero_add _)).symm, parts.trans (List.append_assoc ..).symm, ?_, ?_, ?_, toFirst, last⟩
      · intro p here
        obtain ⟨text, -, rfl⟩ := List.mem_map.mp here
        rfl
      · rw [List.flatMap_map]
      · rw [← earlierIs, ← laterIs, List.forall_mem_append]
        exact ⟨fun p here => Patch.span_ne_of_begins (List.mem_filter.mp here).2,
          fun p here => Patch.span_ne_of_follows (List.mem_filter.mp here).2⟩

end Descends

end Tree

end BindingRepair.Script
