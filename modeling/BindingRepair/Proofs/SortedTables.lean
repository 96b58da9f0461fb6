/-
# Sorted tables

A table that is changed at a key keeps all other entries, and its keys stay in ascending order. So no key
occurs twice.
-/

import BindingRepair.Path
import BindingRepair.SortedTable
import Mathlib.Data.List.Sort
import Mathlib.Data.String.Basic

namespace BindingRepair

namespace SortedTable

variable {α β : Type} {before : α → α → Bool}

/-- A test for the order of keys of which one comes before the other, unless they are equal. -/
structure IsOrder (before : α → α → Bool) : Prop where
  irrefl : ∀ a, before a a = false
  trans : ∀ a b c, before a b = true → before b c = true → before a c = true
  eq_of_neither : ∀ a b, before a b = false → before b a = false → a = b

/-- The keys are in ascending order. -/
def Ascending (before : α → α → Bool) (table : SortedTable α β) : Prop :=
  table.Pairwise fun a b => before a.1 b.1 = true

/-- No key occurs twice. -/
theorem Ascending.nodup_keys (order : IsOrder before) {table : SortedTable α β} (ascending : table.Ascending before) :
    (table.map (·.1)).Nodup := by
  refine List.pairwise_map.mpr (ascending.imp fun earlier same => ?_)
  rw [same, order.irrefl] at earlier
  cases earlier

/-- Tables with the same entries are the same. -/
theorem Ascending.eq_of_mem_iff (order : IsOrder before) {first second : SortedTable α β}
    (ascending : first.Ascending before) (ascending' : second.Ascending before)
    (same : ∀ entry, entry ∈ first ↔ entry ∈ second) : first = second := by
  have irrefl : Std.Irrefl fun a b : α × β => before a.1 b.1 = true :=
    ⟨fun a => by rw [order.irrefl]; exact Bool.false_ne_true⟩
  have antisymm : Std.Antisymm fun a b : α × β => before a.1 b.1 = true := by
    refine ⟨fun a b less greater => ?_⟩
    have loop := order.trans _ _ _ less greater
    rw [order.irrefl] at loop
    cases loop
  exact List.Pairwise.eq_of_mem_iff ascending ascending' same

variable [BEq α] [LawfulBEq α] {key : α} {change : Option β → β}

/-- Where all keys come behind a key it has no entry. -/
theorem lookup_eq_none_of_before (order : IsOrder before) {table : SortedTable α β}
    (behind : ∀ entry ∈ table, before key entry.1 = true) : table.lookup key = none := by
  rw [List.lookup_eq_none_iff]
  intro entry here
  rw [bne_iff_ne]
  intro same
  have earlier := behind entry here
  rw [← same, order.irrefl] at earlier
  cases earlier

/-- A changed table has the entries of other keys, and one for the changed key. -/
theorem mem_alter_iff (order : IsOrder before) {table : SortedTable α β} (ascending : table.Ascending before)
    {entry : α × β} : entry ∈ table.alter before key change ↔
      entry.1 ≠ key ∧ entry ∈ table ∨ entry = (key, change (table.lookup key)) := by
  induction table with
  | nil => simp [alter]
  | cons first rest ih =>
      obtain ⟨k, v⟩ := first
      obtain ⟨earlier, ascendingRest⟩ := List.pairwise_cons.mp ascending
      have apart {entry : α × β} (here : entry ∈ rest) : entry.1 ≠ k := fun same => by
        have behind := earlier entry here
        rw [same, order.irrefl] at behind
        cases behind
      unfold alter
      split
      · next first =>
        have behind : ∀ entry ∈ (k, v) :: rest, before key entry.1 = true :=
          List.forall_mem_cons.mpr ⟨first, fun entry here => order.trans _ _ _ first (earlier entry here)⟩
        have others : ∀ entry ∈ (k, v) :: rest, entry.1 ≠ key := fun entry here same => by
          have behind := behind entry here
          rw [same, order.irrefl] at behind
          cases behind
        rw [lookup_eq_none_of_before order behind, List.mem_cons, or_comm]
        exact or_congr_left ⟨fun here => ⟨others entry here, here⟩, And.right⟩
      · next notFirst =>
        split
        · next later =>
          have other : k ≠ key := fun same => by
            rw [same, order.irrefl] at later
            cases later
          rw [List.mem_cons, ih ascendingRest, List.lookup_cons, beq_eq_false_iff_ne.mpr other.symm, List.mem_cons]
          constructor
          · rintro (rfl | ⟨differs, here⟩ | rfl)
            · exact .inl ⟨other, .inl rfl⟩
            · exact .inl ⟨differs, .inr here⟩
            · exact .inr rfl
          · rintro (⟨differs, rfl | here⟩ | rfl)
            · exact .inl rfl
            · exact .inr (.inl ⟨differs, here⟩)
            · exact .inr (.inr rfl)
        · next notLater =>
          obtain rfl : key = k := order.eq_of_neither _ _ (by simpa using notFirst) (by simpa using notLater)
          rw [List.mem_cons, List.lookup_cons, beq_self_eq_true, List.mem_cons]
          constructor
          · rintro (rfl | here)
            · exact .inr rfl
            · exact .inl ⟨apart here, .inr here⟩
          · rintro (⟨differs, rfl | here⟩ | rfl)
            · exact absurd rfl differs
            · exact .inr here
            · exact .inl rfl

/-- A changed table stays in order. -/
theorem Ascending.alter (order : IsOrder before) {table : SortedTable α β} (ascending : table.Ascending before) :
    (table.alter before key change).Ascending before := by
  induction table with
  | nil => exact List.pairwise_singleton ..
  | cons first rest ih =>
      obtain ⟨k, v⟩ := first
      obtain ⟨earlier, ascendingRest⟩ := List.pairwise_cons.mp ascending
      unfold SortedTable.alter
      split
      · next first =>
        exact List.pairwise_cons.mpr ⟨List.forall_mem_cons.mpr
          ⟨first, fun entry here => order.trans _ _ _ first (earlier entry here)⟩, ascending⟩
      · next notFirst =>
        split
        · next later =>
          refine List.pairwise_cons.mpr ⟨fun entry here => ?_, ih ascendingRest⟩
          rcases (mem_alter_iff order ascendingRest).mp here with ⟨-, old⟩ | rfl
          · exact earlier entry old
          · exact later
        · exact List.pairwise_cons.mpr ⟨earlier, ascendingRest⟩

/-- In a table in order an entry is what is looked up under its key. -/
theorem Ascending.lookup_eq_some_iff (order : IsOrder before) {table : SortedTable α β}
    (ascending : table.Ascending before) {value : β} : table.lookup key = some value ↔ (key, value) ∈ table := by
  induction table with
  | nil => simp
  | cons first rest ih =>
      obtain ⟨k, v⟩ := first
      obtain ⟨earlier, ascendingRest⟩ := List.pairwise_cons.mp ascending
      rw [List.lookup_cons, List.mem_cons]
      by_cases same : key = k
      · obtain rfl := same
        have apart : (key, value) ∉ rest := fun here => by
          have behind := earlier _ here
          rw [order.irrefl] at behind
          cases behind
        simp [apart, eq_comm]
      · rw [beq_eq_false_iff_ne.mpr same]
        simp [same, ih ascendingRest]

/-- In a table with a value set, the value is looked up under its key, and all else as before. The table need not
be in order. -/
theorem lookup_insert (order : IsOrder before) (value : β) (table : SortedTable α β) (other : α) :
    (table.insert before key value).lookup other = if other == key then some value else table.lookup other := by
  unfold insert
  induction table with
  | nil =>
      rw [alter, List.lookup_cons]
      cases other == key <;> rfl
  | cons first rest ih =>
      obtain ⟨k, v⟩ := first
      unfold alter
      split
      · rw [List.lookup_cons]
        cases other == key <;> rfl
      · next notFirst =>
        split
        · next later =>
          have apart : k ≠ key := fun same => by
            rw [same, order.irrefl] at later
            cases later
          rw [List.lookup_cons, ih, List.lookup_cons]
          by_cases same : other = k
          · simp [same, apart]
          · rw [beq_eq_false_iff_ne.mpr same]
        · next notLater =>
          obtain rfl : key = k := order.eq_of_neither _ _ (by simpa using notFirst) (by simpa using notLater)
          rw [List.lookup_cons, List.lookup_cons]
          cases other == key <;> rfl

/-- Names are ordered as texts. -/
theorem isOrder_nameBefore : IsOrder nameBefore where
  irrefl name := decide_eq_false (lt_irrefl name)
  trans a b c first second := by
    simp only [nameBefore, decide_eq_true_eq] at first second ⊢
    exact lt_trans first second
  eq_of_neither a b first second := by
    simp only [nameBefore, decide_eq_false_iff_not, not_lt] at first second
    exact le_antisymm second first

end SortedTable

/-- Paths are ordered name by name. -/
theorem Path.isOrder_before : SortedTable.IsOrder Path.before where
  irrefl names := by
    induction names with
    | nil => rfl
    | cons name names ih => simp [Path.before, ih]
  trans a b c := by
    induction a generalizing b c with
    | nil => cases b <;> cases c <;> simp [Path.before]
    | cons x xs ih =>
        cases b with
        | nil => simp [Path.before]
        | cons y ys =>
            cases c with
            | nil => simp [Path.before]
            | cons z zs =>
                simp only [Path.before, Bool.or_eq_true, decide_eq_true_eq, Bool.and_eq_true, beq_iff_eq]
                rintro (less | ⟨rfl, less⟩) (less' | ⟨rfl, less'⟩)
                · exact .inl (less.trans less')
                · exact .inl less
                · exact .inl less'
                · exact .inr ⟨rfl, ih ys zs less less'⟩
  eq_of_neither a b := by
    induction a generalizing b with
    | nil => cases b <;> simp [Path.before]
    | cons x xs ih =>
        cases b with
        | nil => simp [Path.before]
        | cons y ys =>
            simp only [Path.before, Bool.or_eq_false_iff, decide_eq_false_iff_not, not_lt, Bool.and_eq_false_iff,
              beq_eq_false_iff_ne]
            rintro ⟨le, rest⟩ ⟨ge, rest'⟩
            obtain rfl := le_antisymm ge le
            rw [ih ys (rest.resolve_left (· rfl)) (rest'.resolve_left (· rfl))]

end BindingRepair
