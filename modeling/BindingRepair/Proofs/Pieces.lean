/-
# Pieces of a text

Patches whose ends are places in a text cut it into pieces. What is spliced is the text piece by piece:
a stretch of each is copied, and something else is written for the rest of it.
-/

import BindingRepair.Proofs.Grammar.Layout
import BindingRepair.Script.Printer

namespace BindingRepair

namespace Script

open Text

/-- A patch with the stretch of the text that is kept in front of it, the stretch that it removes, and the
nodes that its text is about. -/
structure Piece extends Patch where
  kept : List Char
  removed : List Char
  nodes : List NodeId

namespace Piece

/-- The piece of the text. -/
def before (p : Piece) : List Char :=
  p.kept ++ p.removed

/-- What becomes of the piece. -/
def after (p : Piece) : List Char :=
  p.kept ++ p.text.toList

end Piece

/-- The text from a place on is cut into pieces and a last stretch, and what becomes of it is what becomes
of the pieces, and the last stretch. Each piece removes the stretch in its span. -/
structure IsCut (place : Cursor) (pieces : List Piece) (last out : List Char) : Prop where
  source : place.rest = pieces.flatMap Piece.before ++ last
  printed : out = pieces.flatMap Piece.after ++ last
  start : ∀ front p behind, pieces = front ++ p :: behind →
    p.span.start = place.offset + byteLength (front.flatMap Piece.before ++ p.kept)
  stop : ∀ p ∈ pieces, p.span.stop = p.span.start + byteLength p.removed

theorem isCut_nil (place : Cursor) : IsCut place [] place.rest place.rest where
  source := rfl
  printed := rfl
  start _ _ _ parts := absurd parts.symm (List.append_ne_nil_of_right_ne_nil _ (List.cons_ne_nil _ _))
  stop _ here := absurd here List.not_mem_nil

/-- One more piece in front of the others. -/
theorem IsCut.cons {place behind : Cursor} {pieces : List Piece} {last out : List Char}
    (others : IsCut behind pieces last out) {p : Piece} (source : place.rest = p.before ++ behind.rest)
    (start : p.span.start = place.offset + byteLength p.kept)
    (stop : p.span.stop = p.span.start + byteLength p.removed) (next : behind.offset = p.span.stop) :
    IsCut place (p :: pieces) last (p.after ++ out) where
  source := by rw [source, others.source, List.flatMap_cons, List.append_assoc]
  printed := by rw [others.printed, List.flatMap_cons, List.append_assoc]
  start front q rest parts := by
    cases front with
    | nil =>
        obtain ⟨rfl, -⟩ := List.cons.inj parts
        exact start
    | cons first front =>
        obtain ⟨rfl, same⟩ := List.cons.inj parts
        rw [others.start front q rest same, next, stop, start]
        simp only [List.flatMap_cons, Piece.before, byteLength_append]
        omega
  stop q here := by
    rcases List.mem_cons.mp here with rfl | here
    · exact stop
    · exact others.stop q here

/-- Behind the stretch that a piece removes the text goes on with the pieces behind it. -/
theorem IsCut.reaches_stop {place : Cursor} {pieces : List Piece} {last out : List Char}
    (cut : IsCut place pieces last out) {front behind : List Piece} {p : Piece} (parts : pieces = front ++ p :: behind) :
    place.Reaches ⟨p.span.stop, behind.flatMap Piece.before ++ last⟩ := by
  refine ⟨front.flatMap Piece.before ++ p.before, ?_, ?_⟩
  · rw [cut.source, parts, List.flatMap_append, List.flatMap_cons]
    simp only [List.append_assoc]
  · have start := cut.start front p behind parts
    have stop := cut.stop p (parts ▸ List.mem_append_right _ List.mem_cons_self)
    simp only [Piece.before, byteLength_append] at start ⊢
    omega

/-- Patches whose ends are places in a text cut it, if they can be spliced at all. -/
theorem exists_isCut {origin place : Cursor} (reaches : origin.Reaches place)
    {labelled : List (Patch × List NodeId)} (on : ∀ entry ∈ labelled, entry.1.span.On origin) {out : List Char}
    (spliced : splice place.offset place.rest (labelled.map (·.1)) = .ok out) :
    ∃ pieces last, IsCut place pieces last out ∧ pieces.map (fun p => (p.toPatch, p.nodes)) = labelled := by
  induction labelled generalizing place out with
  | nil =>
      obtain rfl := Except.ok.inj spliced
      exact ⟨[], place.rest, isCut_nil place, rfl⟩
  | cons entry labelled ih =>
      obtain ⟨patch, nodes⟩ := entry
      have span := on _ List.mem_cons_self
      obtain ⟨first, toFirst, start⟩ := span.start
      obtain ⟨second, toSecond, stop⟩ := span.stop
      dsimp only at start stop
      rw [List.map_cons, splice] at spliced
      by_cases overlap : patch.span.start < place.offset
      · rw [if_pos overlap] at spliced
        cases spliced
      rw [if_neg overlap] at spliced
      have ordered : place.offset ≤ first.offset := start ▸ Nat.le_of_not_lt overlap
      have ordered' : first.offset ≤ second.offset := start ▸ stop ▸ span.ordered
      obtain ⟨kept, parts, there⟩ := reaches.of_offset_le toFirst ordered
      obtain ⟨removed, parts', there'⟩ := toFirst.of_offset_le toSecond ordered'
      -- The splicing goes on behind the patch.
      have behind : dropBytes (patch.span.stop - place.offset) place.rest = second.rest := by
        have length : patch.span.stop - place.offset = byteLength (kept ++ removed) := by
          rw [byteLength_append]
          omega
        rw [length, parts, parts', ← List.append_assoc, dropBytes_byteLength]
      have front : takeBytes (patch.span.start - place.offset) place.rest = kept := by
        have length : patch.span.start - place.offset = byteLength kept := by omega
        rw [length, parts, takeBytes_byteLength]
      rw [behind, front, ← stop] at spliced
      cases rest : splice second.offset second.rest (labelled.map (·.1)) with
      | error e =>
          rw [rest] at spliced
          cases spliced
      | ok after =>
          rw [rest] at spliced
          obtain rfl := Except.ok.inj spliced
          obtain ⟨pieces, last, others, same⟩ :=
            ih toSecond (fun entry here => on entry (List.mem_cons_of_mem _ here)) rest
          let piece : Piece := { patch with kept, removed, nodes }
          refine ⟨piece :: pieces, last, others.cons ?_ ?_ ?_ stop, by rw [List.map_cons, same]⟩
          · rw [parts, parts', ← List.append_assoc]
            rfl
          · exact start.symm.trans there
          · exact (stop.symm.trans there').trans (by rw [start])

end Script

end BindingRepair
