/-
# Interleaved file programs

Programs over the same files take turns: at each turn one of them reads or writes a file. Where no two of
them use the same file, it does not matter who is next. Each program ends with the result that it has on its
own, and leaves its files as it leaves them on its own.

A file answers on its own: what comes of a read or write depends on that file alone, and changes no other.
-/

import BindingRepair.Path
import BindingRepair.Proofs.FileTraces
import BindingRepair.Run.FileProgram
import Mathlib.Data.List.Forall2
import Mathlib.Data.Set.Defs
import Mathlib.Logic.Function.Basic
import Mathlib.Logic.Relation

namespace BindingRepair

/-- What the files hold, by the components of their paths. -/
abbrev Cells (κ : Type) := List Path.Component → κ

/-- How a file answers to what is done with it under a path. -/
structure CellAccess (κ : Type) where
  read : String → κ → Except String String × κ
  write : String → String → κ → Except String Unit × κ

/-- Files that hold a text or are missing; every write succeeds. -/
def textCells : CellAccess (Option String) where
  read path cell := (match cell with
    | some text => .ok text
    | none => .error ("read " ++ path ++ ": missing"), cell)
  write _ text _ := (.ok (), some text)

namespace CellAccess

variable {κ : Type} (cells : CellAccess κ)

/-- Carries out reads and writes in the files that their paths lead to. -/
def access : FileAccess (StateM (Cells κ)) where
  read path := fun world =>
    let answered := cells.read path (world (Path.components path))
    (answered.1, Function.update world (Path.components path) answered.2)
  write path text := fun world =>
    let answered := cells.write path text (world (Path.components path))
    (answered.1, Function.update world (Path.components path) answered.2)

end CellAccess

/-- The path that is read or written. -/
def FileEvent.path : FileEvent → String
  | read path _ | write path _ _ => path

namespace FileProgram

variable {α κ : Type} {cells : CellAccess κ} {files : Set (List Path.Component)} {world world' other : Cells κ}

/-! ### The files of a program -/

/-- Whatever it learns, the program uses none but the given files. -/
inductive Within (files : Set (List Path.Component)) : FileProgram α → Prop
  | done (result : α) : Within files (.done result)
  | read {path : String} {next : Except String String → FileProgram α} (here : Path.components path ∈ files)
      (rest : ∀ answer, Within files (next answer)) : Within files (.read path next)
  | write {path text : String} {next : Except String Unit → FileProgram α} (here : Path.components path ∈ files)
      (rest : ∀ answer, Within files (next answer)) : Within files (.write path text next)

theorem exists_yields (p : FileProgram α) : ∃ events result, p.Yields events result := by
  have ⟨events, yields, _⟩ := run_recording replaying p [] []
  exact ⟨events, _, yields⟩

/-- A program that is seen with none but the given files uses none but these. -/
theorem Within.of_yields {p : FileProgram α}
    (seen : ∀ events result, p.Yields events result → ∀ event ∈ events, Path.components event.path ∈ files) :
    p.Within files := by
  induction p with
  | done result => exact .done result
  | read path next ih =>
      have ⟨events, result, yields⟩ := exists_yields (next (.error ""))
      refine .read (seen _ _ (.read _ yields) (.read path (.error "")) List.mem_cons_self) fun answer => ?_
      exact ih answer fun events result yields event here =>
        seen _ _ (.read answer yields) event (List.mem_cons_of_mem _ here)
  | write path text next ih =>
      have ⟨events, result, yields⟩ := exists_yields (next (.ok ()))
      refine .write (seen _ _ (.write _ yields) (.write path text (.ok ())) List.mem_cons_self) fun answer => ?_
      exact ih answer fun events result yields event here =>
        seen _ _ (.write answer yields) event (List.mem_cons_of_mem _ here)

/-- No file is among both. -/
def Apart (files others : Set (List Path.Component)) : Prop :=
  ∀ file ∈ files, file ∉ others

theorem Apart.symm {others : Set (List Path.Component)} (apart : Apart files others) : Apart others files :=
  fun file here hereToo => apart file hereToo here

/-- As far as some files go, the worlds are the same. -/
def AgreeOn (files : Set (List Path.Component)) (world other : Cells κ) : Prop :=
  ∀ file ∈ files, world file = other file

theorem AgreeOn.trans {last : Cells κ} (agree : AgreeOn files world other) (behind : AgreeOn files other last) :
    AgreeOn files world last :=
  fun file here => (agree file here).trans (behind file here)

theorem AgreeOn.update (agree : AgreeOn files world other) (file : List Path.Component) (cell : κ) :
    AgreeOn files (Function.update world file cell) (Function.update other file cell) := by
  intro used here
  by_cases same : used = file
  · rw [same, Function.update_self, Function.update_self]
  · rw [Function.update_of_ne same, Function.update_of_ne same]
    exact agree used here

theorem AgreeOn.read (cells : CellAccess κ) (agree : AgreeOn files world other) {path : String}
    (here : Path.components path ∈ files) :
    (cells.access.read path world).1 = (cells.access.read path other).1 ∧
      AgreeOn files (cells.access.read path world).2 (cells.access.read path other).2 := by
  simp only [CellAccess.access]
  rw [agree _ here]
  exact ⟨rfl, agree.update _ _⟩

theorem AgreeOn.write (cells : CellAccess κ) (agree : AgreeOn files world other) {path : String}
    (here : Path.components path ∈ files) (text : String) :
    (cells.access.write path text world).1 = (cells.access.write path text other).1 ∧
      AgreeOn files (cells.access.write path text world).2 (cells.access.write path text other).2 := by
  simp only [CellAccess.access]
  rw [agree _ here]
  exact ⟨rfl, agree.update _ _⟩

theorem run_read {σ : Type} (access : FileAccess (StateM σ)) (path : String)
    (next : Except String String → FileProgram α) (state : σ) :
    (read path next).run access state = (next (access.read path state).1).run access (access.read path state).2 := rfl

theorem run_write {σ : Type} (access : FileAccess (StateM σ)) (path text : String)
    (next : Except String Unit → FileProgram α) (state : σ) : (write path text next).run access state =
      (next (access.write path text state).1).run access (access.write path text state).2 := rfl

/-- What a program does depends on none but its files. -/
theorem Within.run_congr (cells : CellAccess κ) {p : FileProgram α} (within : p.Within files) (agree : AgreeOn files world other) :
    (p.run cells.access world).1 = (p.run cells.access other).1 ∧
      AgreeOn files (p.run cells.access world).2 (p.run cells.access other).2 := by
  induction within generalizing world other with
  | done result => exact ⟨rfl, agree⟩
  | read here _ ih =>
      have ⟨answer, behind⟩ := agree.read cells here
      rw [run_read, run_read, ← answer]
      exact ih _ behind
  | @write path text next here _ ih =>
      have ⟨answer, behind⟩ := agree.write cells here text
      rw [run_write, run_write, ← answer]
      exact ih _ behind

/-! ### Turns -/

/-- The next read or write of a program, and what is left of the program after it. -/
inductive Advances (cells : CellAccess κ) : FileProgram α × Cells κ → FileProgram α × Cells κ → Prop
  | read (path : String) (next : Except String String → FileProgram α) (world : Cells κ) :
      Advances cells (.read path next, world)
        (next (cells.access.read path world).1, (cells.access.read path world).2)
  | write (path text : String) (next : Except String Unit → FileProgram α) (world : Cells κ) :
      Advances cells (.write path text next, world)
        (next (cells.access.write path text world).1, (cells.access.write path text world).2)

namespace Advances

variable {p q : FileProgram α}

/-- The program ends as it would have ended before. -/
theorem run_eq (advances : Advances cells (p, world) (q, world')) :
    q.run cells.access world' = p.run cells.access world := by
  cases advances <;> rfl

theorem within (advances : Advances cells (p, world) (q, world')) (within : p.Within files) : q.Within files := by
  cases advances with
  | read => cases within with | read _ rest => exact rest _
  | write => cases within with | write _ rest => exact rest _

/-- All files that the program does not use stay as they are. -/
theorem frame (advances : Advances cells (p, world) (q, world')) (within : p.Within files)
    {file : List Path.Component} (unused : file ∉ files) : world' file = world file := by
  cases advances with
  | read =>
      cases within with
      | read here => exact Function.update_of_ne (fun same => unused (by rwa [same])) _ _
  | write =>
      cases within with
      | write here => exact Function.update_of_ne (fun same => unused (by rwa [same])) _ _

end Advances

/-- One of several programs advances. -/
inductive TakesTurn (cells : CellAccess κ) : List (FileProgram α) × Cells κ → List (FileProgram α) × Cells κ → Prop
  | first {p q : FileProgram α} {world world' : Cells κ} (advances : Advances cells (p, world) (q, world'))
      (programs : List (FileProgram α)) : TakesTurn cells (p :: programs, world) (q :: programs, world')
  | later {programs programs' : List (FileProgram α)} {world world' : Cells κ} (p : FileProgram α)
      (turn : TakesTurn cells (programs, world) (programs', world')) :
      TakesTurn cells (p :: programs, world) (p :: programs', world')

/-- The second state follows from the first by turns of the programs. -/
def Reaches (cells : CellAccess κ) : List (FileProgram α) × Cells κ → List (FileProgram α) × Cells κ → Prop :=
  Relation.ReflTransGen (TakesTurn cells)

/-! ### One program after another -/

/-- Carries out programs one after another. -/
def inTurn : List (FileProgram α) → FileProgram (List α)
  | [] => .done []
  | p :: programs => p.bind fun result => (inTurn programs).map (result :: ·)

theorem run_bind {β σ : Type} (access : FileAccess (StateM σ)) (p : FileProgram α) (f : α → FileProgram β) (state : σ) :
    (p.bind f).run access state = (f (p.run access state).1).run access (p.run access state).2 := by
  induction p generalizing state with
  | done result => rfl
  | read path next ih => exact ih _ _
  | write path text next ih => exact ih _ _

theorem run_inTurn_cons {σ : Type} (access : FileAccess (StateM σ)) (p : FileProgram α)
    (programs : List (FileProgram α)) (state : σ) : (inTurn (p :: programs)).run access state =
      ((p.run access state).1 :: ((inTurn programs).run access (p.run access state).2).1,
        ((inTurn programs).run access (p.run access state).2).2) := by
  rw [inTurn, run_bind, map, run_bind]
  rfl

/-- The first program may go on until it ends. -/
theorem reaches_first (p : FileProgram α) (programs : List (FileProgram α)) (world : Cells κ) :
    Reaches cells (p :: programs, world)
      (.done (p.run cells.access world).1 :: programs, (p.run cells.access world).2) := by
  induction p generalizing world with
  | done result => exact .refl
  | read path next ih => exact .head (.first (.read path next world) programs) (ih _ _)
  | write path text next ih => exact .head (.first (.write path text next world) programs) (ih _ _)

theorem Reaches.later {state state' : List (FileProgram α) × Cells κ} (p : FileProgram α)
    (reaches : Reaches cells state state') : Reaches cells (p :: state.1, state.2) (p :: state'.1, state'.2) := by
  induction reaches with
  | refl => exact .refl
  | tail _ turn ih => exact .tail ih (.later p turn)

/-- The programs may be carried out one after another. -/
theorem reaches_inTurn (cells : CellAccess κ) (programs : List (FileProgram α)) (world : Cells κ) :
    Reaches cells (programs, world) (((inTurn programs).run cells.access world).1.map .done,
      ((inTurn programs).run cells.access world).2) := by
  induction programs generalizing world with
  | nil => exact .refl
  | cons p programs ih =>
      rw [run_inTurn_cons]
      exact (reaches_first p programs world).trans (Reaches.later _ (ih _))

/-! ### Programs that share no file -/

/-- What is left of a program ends as all of it would have ended at the start. -/
structure OnCourse (cells : CellAccess κ) (files : Set (List Path.Component)) (p : FileProgram α) (start : Cells κ)
    (left : FileProgram α) (world : Cells κ) : Prop where
  within : left.Within files
  result : (left.run cells.access world).1 = (p.run cells.access start).1
  leaves : AgreeOn files (left.run cells.access world).2 (p.run cells.access start).2

namespace OnCourse

variable {p left left' : FileProgram α} {start : Cells κ}

theorem at_start (within : p.Within files) : OnCourse cells files p start p start :=
  ⟨within, rfl, fun _ _ => rfl⟩

/-- The program keeps its course at its own turns. -/
theorem advance (course : OnCourse cells files p start left world)
    (advances : Advances cells (left, world) (left', world')) : OnCourse cells files p start left' world' := by
  refine ⟨advances.within course.within, ?_, ?_⟩
  · rw [advances.run_eq]
    exact course.result
  · rw [advances.run_eq]
    exact course.leaves

/-- The program keeps its course when others change their files. -/
theorem keep (course : OnCourse cells files p start left world) (agree : AgreeOn files world' world) :
    OnCourse cells files p start left world' := by
  have ⟨result, leaves⟩ := course.within.run_congr cells agree
  exact ⟨course.within, result.trans course.result, leaves.trans course.leaves⟩

end OnCourse

section Items

variable {ι : Type} {files : ι → Set (List Path.Component)} {program : ι → FileProgram α} {items : List ι}
  {start : Cells κ} {state state' : List (FileProgram α) × Cells κ}

/-- All programs are on their courses, and what none of them uses is as it was at the start. -/
structure OnCourses (cells : CellAccess κ) (files : ι → Set (List Path.Component)) (program : ι → FileProgram α)
    (start : Cells κ) (items : List ι) (state : List (FileProgram α) × Cells κ) : Prop where
  each : List.Forall₂ (fun item left => OnCourse cells (files item) (program item) start left state.2) items state.1
  unused : ∀ file, (∀ item ∈ items, file ∉ files item) → state.2 file = start file

/-- A turn of one program keeps all on their courses, and changes no file but theirs. -/
theorem TakesTurn.keeps (turn : TakesTurn cells state state')
    (apart : items.Pairwise fun item other => Apart (files item) (files other))
    (each : List.Forall₂ (fun item left => OnCourse cells (files item) (program item) start left state.2) items state.1) :
    List.Forall₂ (fun item left => OnCourse cells (files item) (program item) start left state'.2) items state'.1 ∧
      ∀ file, (∀ item ∈ items, file ∉ files item) → state'.2 file = state.2 file := by
  induction turn generalizing items with
  | @first p q world world' advances programs =>
      cases each with
      | @cons item _ rest _ course courses =>
          obtain ⟨others, -⟩ := List.pairwise_cons.mp apart
          have frame : ∀ file ∉ files item, world' file = world file :=
            fun _ unused => advances.frame course.within unused
          have kept : List.Forall₂ (fun item left => OnCourse cells (files item) (program item) start left world')
              rest programs := by
            refine ((List.forall₂_and_left _ _).mpr ⟨others, courses⟩).imp fun other left both => ?_
            exact both.2.keep fun file here => frame file fun used => both.1 file used here
          exact ⟨.cons (course.advance advances) kept, fun file unused => frame file (unused _ List.mem_cons_self)⟩
  | later p turn ih =>
      cases each with
      | cons course courses =>
          obtain ⟨others, apartRest⟩ := List.pairwise_cons.mp apart
          obtain ⟨kept, frame⟩ := ih apartRest courses
          have own : ∀ file ∈ files _, _ = _ := fun file here => frame file fun item listed used =>
            others item listed file here used
          exact ⟨.cons (course.keep own) kept, fun file unused => frame file (List.forall_mem_cons.mp unused).2⟩

theorem Reaches.onCourses (reaches : Reaches cells state state')
    (apart : items.Pairwise fun item other => Apart (files item) (files other))
    (courses : OnCourses cells files program start items state) : OnCourses cells files program start items state' := by
  induction reaches with
  | refl => exact courses
  | tail _ turn ih =>
      have ⟨each, frame⟩ := turn.keeps apart ih.each
      exact ⟨each, fun file unused => (frame file unused).trans (ih.unused file unused)⟩

/-- How programs end that share no file: as each of them ends on its own. -/
structure Ends (cells : CellAccess κ) (files : ι → Set (List Path.Component)) (program : ι → FileProgram α)
    (start : Cells κ) (items : List ι) (results : List α) (world : Cells κ) : Prop where
  results : results = items.map fun item => ((program item).run cells.access start).1
  leaves : ∀ item ∈ items, AgreeOn (files item) world ((program item).run cells.access start).2
  unused : ∀ file, (∀ item ∈ items, file ∉ files item) → world file = start file

/-- Whoever takes turns when, the programs end as each of them ends on its own. -/
theorem Reaches.ends {results : List α}
    (reaches : Reaches cells (items.map program, start) (results.map .done, world))
    (within : ∀ item ∈ items, (program item).Within (files item))
    (apart : items.Pairwise fun item other => Apart (files item) (files other)) :
    Ends cells files program start items results world := by
  have courses : OnCourses cells files program start items (items.map program, start) := by
    refine ⟨List.forall₂_map_right_iff.mpr (List.forall₂_same.mpr fun item here => ?_), fun _ _ => rfl⟩
    exact .at_start (within item here)
  have ⟨each, unused⟩ := reaches.onCourses apart courses
  have ended := List.forall₂_map_right_iff.mp each
  have same : results = items.map fun item => ((program item).run cells.access start).1 := by
    rw [← List.forall₂_eq_eq_eq, List.forall₂_map_right_iff]
    exact ended.flip.imp fun _ _ course => course.result
  rw [same] at ended
  have each := List.forall₂_same.mp (List.forall₂_map_right_iff.mp ended)
  exact ⟨same, fun item here => (each item here).leaves, unused⟩

/-- However the programs are listed, there is one way for them to end. -/
theorem Ends.unique {others : List ι} {results results' : List α} (ends : Ends cells files program start items results world)
    (alike : Ends cells files program start others results' world') (perm : items.Perm others) :
    results.Perm results' ∧ world = world' := by
  refine ⟨?_, funext fun file => ?_⟩
  · rw [ends.results, alike.results]
    exact perm.map _
  · by_cases used : ∃ item ∈ items, file ∈ files item
    · obtain ⟨item, here, used⟩ := used
      exact (ends.leaves item here file used).trans (alike.leaves item (perm.mem_iff.mp here) file used).symm
    · have unused : ∀ item ∈ items, file ∉ files item := fun item here used' => used ⟨item, here, used'⟩
      rw [ends.unused file unused, alike.unused file fun item here => unused item (perm.mem_iff.mpr here)]

end Items

end FileProgram

end BindingRepair
