/-
# Schedules of a run

The repair of a file reads and writes that file, and writes its copy if copies are wanted. Where no copy has
the path of a file that is to be repaired, no two repairs share a file, so that they may take turns in any way:
the files, the report, its summary and the patch become what they become if one file is repaired after another.
-/

import BindingRepair.Proofs.Components
import BindingRepair.Proofs.Interleavings
import BindingRepair.Proofs.RunAccounts
import Mathlib.Data.List.Nodup

namespace BindingRepair

namespace FileRun

variable {s : Settings} {plan other : FixPlan} {events : List FileEvent}

/-! ### The files of a repair -/

/-- The file of a plan, and its copy if copies are wanted. -/
def filesOf (s : Settings) (plan : FixPlan) : Set (List Path.Component) :=
  {file | file = Path.components (ownPath s plan) ∨
    s.backupEnabled = true ∧ file = Path.components (backupPath (ownPath s plan) s.backupSuffix)}

/-- Writing a changed text uses no path but those of the file and its copy. -/
theorem Change.Attempt.path_of_mem {c : Change} {outcome : Except WriteFailure (Option String)} {event : FileEvent}
    (attempt : Change.Attempt s c events outcome) (here : event ∈ events) :
    event.path = c.path ∨ s.backupEnabled = true ∧ event.path = backupPath c.path s.backupSuffix := by
  have prepared {source current : String} (here : event ∈ precautions s c.path source current) :
      event.path = c.path ∨ s.backupEnabled = true ∧ event.path = backupPath c.path s.backupSuffix := by
    rcases List.mem_cons.mp here with rfl | copied
    · exact .inl rfl
    · split at copied
      · next wanted => exact .inr ⟨wanted, by rw [List.mem_singleton.mp copied]; rfl⟩
      · cases copied
  cases attempt with
  | unread cause => exact .inl (by rw [List.mem_singleton.mp here]; rfl)
  | stale current => exact .inl (by rw [List.mem_singleton.mp here]; rfl)
  | uncopied current cause same wanted =>
      rcases List.mem_cons.mp here with rfl | copied
      · exact .inl rfl
      · exact .inr ⟨wanted, by rw [List.mem_singleton.mp copied]; rfl⟩
  | unwritten current cause same =>
      rcases List.mem_append.mp here with before | last
      · exact prepared before
      · exact .inl (by rw [List.mem_singleton.mp last]; rfl)
  | written current backup same =>
      rcases List.mem_append.mp here with before | last
      · exact prepared before
      · exact .inl (by rw [List.mem_singleton.mp last]; rfl)

theorem within_ofPlan (s : Settings) (plan : FixPlan) : (ofPlan s plan).Within (filesOf s plan) := by
  refine .of_yields fun events result yields event here => ?_
  cases course_of_ofPlan yields with
  | stopped | previewed => exact .inl (by rw [List.mem_singleton.mp here]; rfl)
  | attempted c report wet repairs change attempt =>
      rcases List.mem_cons.mp here with rfl | later
      · exact .inl rfl
      · rcases attempt.path_of_mem later with own | ⟨wanted, copy⟩
        · exact .inl (by rw [own, change.1])
        · exact .inr ⟨wanted, by rw [copy, change.1]⟩

/-- Repairs of different files share no file, provided that the copy of neither is the other. -/
theorem apart_filesOf (normal : Path.IsNormal plan.filePath) (alsoNormal : Path.IsNormal other.filePath)
    (distinct : plan.filePath ≠ other.filePath)
    (apart : s.backupEnabled = true →
      Path.components (backupPath (ownPath s plan) s.backupSuffix) ≠ Path.components (ownPath s other) ∧
        Path.components (backupPath (ownPath s other) s.backupSuffix) ≠ Path.components (ownPath s plan)) :
    FileProgram.Apart (filesOf s plan) (filesOf s other) := by
  intro file used usedToo
  rcases used with own | ⟨wanted, copy⟩
  · rcases usedToo with otherOwn | ⟨wanted, otherCopy⟩
    · have same : Path.components (ownPath s plan ++ "") = Path.components (ownPath s other ++ "") := by
        rw [String.append_empty, String.append_empty]
        exact own.symm.trans otherOwn
      exact distinct (normal.eq_of_join_append alsoNormal same)
    · exact (apart wanted).2 (otherCopy.symm.trans own)
  · rcases usedToo with otherOwn | ⟨_, otherCopy⟩
    · exact (apart wanted).1 (copy.symm.trans otherOwn)
    · exact distinct (normal.eq_of_join_append alsoNormal (copy.symm.trans otherCopy))

theorem ofPlans_eq_inTurn (s : Settings) (plans : List FixPlan) :
    ofPlans s plans = .inTurn (plans.map (ofPlan s)) := by
  induction plans with
  | nil => rfl
  | cons plan plans ih => rw [ofPlans, ih]; rfl

/-- The report of a file is filed under its path. -/
theorem path_run_ofPlan {σ : Type} (access : FileAccess (StateM σ)) (s : Settings) (plan : FixPlan) (state : σ) :
    ((ofPlan s plan).run access state).1.report.path = plan.filePath := by
  have ⟨_, yields, _⟩ := FileProgram.run_recording access (ofPlan s plan) state []
  exact (tells_of_yields yields).path

end FileRun

namespace RunOutcome

theorem fileOrder_trans (a b c : FileRun) (first : fileOrder a b = true) (second : fileOrder b c = true) :
    fileOrder a c = true :=
  decide_eq_true (String.le_trans (of_decide_eq_true first) (of_decide_eq_true second))

theorem fileOrder_total (a b : FileRun) : (fileOrder a b || fileOrder b a) = true := by
  rw [Bool.or_eq_true]
  exact (String.le_total a.report.path b.report.path).imp decide_eq_true decide_eq_true

/-- What a run tells does not depend on the order in which its files have been repaired. -/
theorem ofFileRuns_perm (s : Settings) (tool : ToolInfo) (stats : IntakeStats) (times : RunTimes) (touched : Nat)
    {runs others : List FileRun} (perm : runs.Perm others) (distinct : (runs.map (·.report.path)).Nodup) :
    ofFileRuns s tool stats times touched runs = ofFileRuns s tool stats times touched others := by
  have sorted : runs.mergeSort fileOrder = others.mergeSort fileOrder := by
    have both := (List.mergeSort_perm runs fileOrder).trans (perm.trans (List.mergeSort_perm others fileOrder).symm)
    refine both.eq_of_pairwise (fun a b inRuns inOthers first second => ?_)
      (List.pairwise_mergeSort fileOrder_trans fileOrder_total runs)
      (List.pairwise_mergeSort fileOrder_trans fileOrder_total others)
    have samePath : a.report.path = b.report.path :=
      String.le_antisymm (of_decide_eq_true first) (of_decide_eq_true second)
    exact List.inj_on_of_nodup_map distinct (List.mem_mergeSort.mp inRuns)
      (perm.mem_iff.mpr (List.mem_mergeSort.mp inOthers)) samePath
  rw [ofFileRuns, ofFileRuns, sorted]

/-- However the repairs of files take turns, they can always be finished, and when all of them are finished, the
files, the report and the patch are as if one file had been repaired after another. -/
theorem schedules_agree {κ : Type} (cells : CellAccess κ) (s : Settings) (tool : ToolInfo) (stats : IntakeStats)
    (times : RunTimes) (plans inOrder : List FixPlan) (perm : inOrder.Perm plans)
    (normal : ∀ plan ∈ plans, Path.IsNormal plan.filePath)
    (distinct : plans.Pairwise fun plan other => plan.filePath ≠ other.filePath)
    (apart : s.backupEnabled = true → ∀ plan ∈ plans, ∀ other ∈ plans,
      Path.components (backupPath (FileRun.ownPath s plan) s.backupSuffix) ≠
        Path.components (FileRun.ownPath s other))
    (start world : Cells κ) (left : List (FileProgram FileRun))
    (reaches : FileProgram.Reaches cells (plans.map (FileRun.ofPlan s), start) (left, world)) :
    (∃ (runs : List FileRun) (last : Cells κ), FileProgram.Reaches cells (left, world) (runs.map .done, last)) ∧
      ∀ runs : List FileRun, left = runs.map .done →
        world = ((FileRun.ofPlans s inOrder).run cells.access start).2 ∧
        ofFileRuns s tool stats times plans.length runs =
          ofFileRuns s tool stats times inOrder.length ((FileRun.ofPlans s inOrder).run cells.access start).1 := by
  refine ⟨⟨_, _, FileProgram.reaches_inTurn cells left world⟩, ?_⟩
  rintro runs rfl
  have apartFiles : plans.Pairwise fun plan other => FileProgram.Apart (FileRun.filesOf s plan) (FileRun.filesOf s other) :=
    distinct.imp_of_mem fun here hereToo different =>
      FileRun.apart_filesOf (normal _ here) (normal _ hereToo) different
        fun wanted => ⟨apart wanted _ here _ hereToo, apart wanted _ hereToo _ here⟩
  have apartInOrder : inOrder.Pairwise fun plan other => FileProgram.Apart (FileRun.filesOf s plan) (FileRun.filesOf s other) :=
    apartFiles.perm perm.symm FileProgram.Apart.symm
  have ends := reaches.ends (fun plan _ => FileRun.within_ofPlan s plan) apartFiles
  have oneByOne := FileProgram.reaches_inTurn cells (inOrder.map (FileRun.ofPlan s)) start
  rw [← FileRun.ofPlans_eq_inTurn] at oneByOne
  have endsInOrder := oneByOne.ends (fun plan _ => FileRun.within_ofPlan s plan) apartInOrder
  obtain ⟨sameRuns, sameWorld⟩ := ends.unique endsInOrder perm.symm
  refine ⟨sameWorld, ?_⟩
  have paths : runs.map (·.report.path) = plans.map (·.filePath) := by
    rw [ends.results, List.map_map]
    exact List.map_congr_left fun plan _ => FileRun.path_run_ofPlan _ s plan start
  rw [perm.length_eq]
  refine ofFileRuns_perm s tool stats times plans.length sameRuns ?_
  rw [paths]
  exact List.pairwise_map.mpr distinct

/-- The same fixes for another file. -/
def otherSonnerPlan : FixPlan :=
  { sonnerPlan with filePath := "B.js" }

/-- Two files are read one after the other before either is repaired. -/
theorem interleaved_sonner_plans : ∃ (runs : List FileRun) (last : Cells (Option String)),
    FileProgram.Reaches textCells
      ([sonnerPlan, otherSonnerPlan].map (FileRun.ofPlan (withCopies ".bak")), fun _ => some "toast()")
      (runs.map .done, last) ∧
    last = ((FileRun.ofPlans (withCopies ".bak") [otherSonnerPlan, sonnerPlan]).run textCells.access
      fun _ => some "toast()").2 ∧
    ofFileRuns (withCopies ".bak") ⟨"tool", none⟩ {} {} 2 runs =
      ofFileRuns (withCopies ".bak") ⟨"tool", none⟩ {} {} 2
        ((FileRun.ofPlans (withCopies ".bak") [otherSonnerPlan, sonnerPlan]).run textCells.access
          fun _ => some "toast()").1 := by
  have isName {name : String} (h : name ≠ "" ∧ name ≠ "." ∧ name ≠ ".." ∧ '/' ∉ name.toList) : Path.IsName name :=
    ⟨h.1, h.2.1, h.2.2.1, h.2.2.2⟩
  have normal : ∀ plan ∈ [sonnerPlan, otherSonnerPlan], Path.IsNormal plan.filePath := by
    intro plan here
    rcases List.mem_pair.mp here with rfl | rfl
    · exact ⟨["A.js"], List.forall_mem_singleton.mpr (isName (by decide)), rfl⟩
    · exact ⟨["B.js"], List.forall_mem_singleton.mpr (isName (by decide)), rfl⟩
  have distinct : [sonnerPlan, otherSonnerPlan].Pairwise fun plan other => plan.filePath ≠ other.filePath := by decide
  have apart : ∀ plan ∈ [sonnerPlan, otherSonnerPlan], ∀ other ∈ [sonnerPlan, otherSonnerPlan],
      Path.components (backupPath (FileRun.ownPath (withCopies ".bak") plan) ".bak") ≠
        Path.components (FileRun.ownPath (withCopies ".bak") other) := by decide +kernel
  have agree := schedules_agree textCells (withCopies ".bak") ⟨"tool", none⟩ {} {} [sonnerPlan, otherSonnerPlan]
    [otherSonnerPlan, sonnerPlan] (.swap _ _ _) normal distinct (fun _ => apart) fun _ => some "toast()"
  have begun : FileProgram.Reaches textCells
      ([sonnerPlan, otherSonnerPlan].map (FileRun.ofPlan (withCopies ".bak")), fun _ => some "toast()") _ :=
    .tail (.tail .refl (.later _ (.first (.read ..) []))) (.first (.read ..) _)
  obtain ⟨runs, last, ended⟩ := (agree _ _ begun).1
  have ⟨files, told⟩ := (agree _ _ (begun.trans ended)).2 runs rfl
  exact ⟨runs, last, begun.trans ended, files, told⟩

end RunOutcome

end BindingRepair
