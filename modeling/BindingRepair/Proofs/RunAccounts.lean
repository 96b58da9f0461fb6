/-
# The accounts of a run

A run repairs the files whose plans have fixes, and no others. What it reports of a file lists the fixes of its
plan one by one, in the order of the preview, and the summary counts every file once.

Nothing is assumed of how reads and writes are answered.
-/

import BindingRepair.Proofs.GuardedWrites
import BindingRepair.Proofs.IntakeGroups
import BindingRepair.Proofs.Plans
import BindingRepair.Run
import Mathlib.Algebra.Order.BigOperators.Group.List
import Mathlib.Data.List.Forall2

namespace BindingRepair

/-! ### Passes of a plan -/

/-- The fixes that diagnostics call for come pass by pass. -/
theorem pairwise_requiredFixes (v : Vocabulary) (diagnostics : List Diagnostic) :
    (requiredFixes v diagnostics).Pairwise fun a b => a.pass.number ≤ b.pass.number := by
  have within {α : Type} {f : α → Fix} (pass : Pass) (same : ∀ a, (f a).pass = pass) (items : List α) :
      (items.map f).Pairwise fun a b => a.pass.number ≤ b.pass.number :=
    List.pairwise_map.mpr (List.pairwise_of_forall fun a b => by rw [same a, same b])
  unfold requiredFixes
  simp only [List.append_assoc, List.pairwise_append, List.mem_append, List.mem_map]
  refine ⟨within .imports (fun _ => rfl) _, ⟨within .declarations (fun _ => rfl) _,
    ⟨within .declarations (fun _ => rfl) _, within .renames (fun _ => rfl) _, ?_⟩, ?_⟩, ?_⟩
  · rintro _ ⟨a, -, rfl⟩ _ ⟨b, -, rfl⟩
    exact Nat.le_succ 1
  · rintro _ ⟨a, -, rfl⟩ _ (⟨b, -, rfl⟩ | ⟨b, -, rfl⟩)
    · exact Nat.le_refl 1
    · exact Nat.le_succ 1
  · rintro _ ⟨a, -, rfl⟩ _ -
    exact Nat.zero_le _

/-- The fixes that are pushed follow those that there are, in their order. -/
theorem FixPlan.sublist_foldl_push (fixes : List Fix) (plan : FixPlan) :
    ((fixes.foldl FixPlan.push plan).fixes.map (·.fix)).Sublist (plan.fixes.map (·.fix) ++ fixes) := by
  induction fixes generalizing plan with
  | nil => rw [List.append_nil]; exact List.Sublist.refl _
  | cons fix fixes ih =>
      refine (ih (plan.push fix)).trans ?_
      unfold FixPlan.push
      split
      · exact (List.Sublist.refl _).append (List.sublist_cons_self fix fixes)
      · simp [PlannedFix.ofFix]

/-- Fixes that come pass by pass are carried out in their order. -/
theorem FixPlan.inPassOrder_eq_fixes {plan : FixPlan}
    (sorted : plan.fixes.Pairwise fun a b => a.fix.pass.number ≤ b.fix.pass.number) : plan.inPassOrder = plan.fixes := by
  rw [plan.inPassOrder_eq]
  generalize plan.fixes = fixes at sorted
  induction fixes with
  | nil => rfl
  | cons planned rest ih =>
      obtain ⟨later, sortedRest⟩ := List.pairwise_cons.mp sorted
      have none (pass : Pass) (before : pass.number < planned.fix.pass.number) :
          rest.filter (·.fix.pass = pass) = [] := by
        refine List.filter_eq_nil_iff.mpr fun other here same => ?_
        have behind := later other here
        rw [of_decide_eq_true same] at behind
        omega
      have parts := ih sortedRest
      cases pass : planned.fix.pass with
      | imports => simp [pass, parts]
      | declarations =>
          have noImports := none .imports (by rw [pass]; decide)
          rw [noImports, List.nil_append] at parts
          simp [pass, noImports, parts]
      | renames =>
          have noImports := none .imports (by rw [pass]; decide)
          have noDeclarations := none .declarations (by rw [pass]; decide)
          rw [noImports, noDeclarations, List.nil_append, List.nil_append] at parts
          simp [pass, noImports, noDeclarations, parts]

/-- The fixes of a plan that follows from diagnostics are carried out in their order. -/
theorem inPassOrder_planFile (v : Vocabulary) (filePath : String) (diagnostics : List Diagnostic) :
    (planFile v filePath diagnostics).inPassOrder = (planFile v filePath diagnostics).fixes := by
  have sorted : ((planFile v filePath diagnostics).fixes.map (·.fix)).Pairwise
      fun a b => a.pass.number ≤ b.pass.number :=
    (pairwise_requiredFixes v diagnostics).sublist (FixPlan.sublist_foldl_push _ _)
  exact FixPlan.inPassOrder_eq_fixes (by rwa [List.pairwise_map] at sorted)

/-! ### Outcomes -/

namespace Progress

/-- Each fix has one outcome, of its identifier and kind. -/
theorem labels_applyAll (o : RepairOptions) (p : Progress) (fixes : List PlannedFix) :
    (applyAll o p fixes).1.map (fun outcome => (outcome.fixId, outcome.kind)) =
      fixes.map fun planned => (planned.id, planned.fix.label) := by
  induction fixes generalizing p with
  | nil => rfl
  | cons planned rest ih =>
      have own : ((outcome planned (p.apply o planned.fix)).fixId, (outcome planned (p.apply o planned.fix)).kind) =
          (planned.id, planned.fix.label) := by
        cases p.apply o planned.fix <;> rfl
      rw [applyAll, List.map_cons, List.map_cons, ih, own]

end Progress

/-- What a repair reports of its fixes, in the order in which they are carried out. -/
theorem labels_repair {filePath source : String} {plan : FixPlan} {o : RepairOptions} {repaired : Repaired}
    (done : repair filePath source plan o = .ok repaired) :
    repaired.outcomes.map (fun outcome => (outcome.fixId, outcome.kind)) =
      plan.inPassOrder.map fun planned => (planned.id, planned.fix.label) := by
  unfold repair at done
  simp only [bind, Except.bind, pure, Except.pure, throw, throwThe, MonadExceptOf.throw] at done
  repeat' split at done
  all_goals try cases done
  all_goals exact Progress.labels_applyAll ..

/-! ### The report of a file -/

/-- Whether a path is read. -/
def FileEvent.reads (own : String) : FileEvent → Bool
  | .read path _ => path == own
  | .write .. => false

namespace FileRun

variable {s : Settings} {plan : FixPlan} {events : List FileEvent} {result : FileRun}

/-- What is told of the fixes of a file: what the repair tells of them if it succeeded, and nothing otherwise. -/
def fixesReported (s : Settings) (plan : FixPlan) : Except String String → List FixOutcome
  | .error _ => []
  | .ok source =>
    match repair plan.filePath source plan s.repairOptions with
    | .error _ => []
    | .ok repaired => repaired.outcomes

theorem fixes_finish (c : Change) (report : FileReport) (outcome : Except WriteFailure (Option String)) :
    (c.finish report outcome).report.path = report.path ∧ (c.finish report outcome).report.fixes = report.fixes := by
  cases outcome <;> exact ⟨rfl, rfl⟩

theorem path_of_read_precautions {own source current path : String} {answer : Except String String}
    (here : .read path answer ∈ precautions s own source current) : path = own := by
  unfold precautions at here
  rcases List.mem_cons.mp here with same | copied
  · cases same
    rfl
  · split at copied
    · cases List.mem_singleton.mp copied
    · cases copied

/-- No file is looked at but the one that is to be written. -/
theorem Change.Attempt.path_of_read {c : Change} {outcome : Except WriteFailure (Option String)} {path : String}
    {answer : Except String String} (attempt : Change.Attempt s c events outcome)
    (here : .read path answer ∈ events) : path = c.path := by
  have last {written : Except String Unit} {text current : String}
      (here : .read path answer ∈ precautions s c.path c.source current ++ [.write c.path text written]) :
      path = c.path := by
    rcases List.mem_append.mp here with here | here
    · exact path_of_read_precautions here
    · cases List.mem_singleton.mp here
  cases attempt with
  | unread cause => cases List.mem_singleton.mp here; rfl
  | stale current => cases List.mem_singleton.mp here; rfl
  | uncopied current cause same wanted =>
      rcases List.mem_cons.mp here with same | here
      · cases same; rfl
      · cases List.mem_singleton.mp here
  | unwritten current cause same => exact last here
  | written current backup same => exact last here

/-- The report of a file is about that file and its fixes, and no other file is read for it. -/
structure Tells (s : Settings) (plan : FixPlan) (events : List FileEvent) (result : FileRun) : Prop where
  path : result.report.path = plan.filePath
  fixes : ∃ answer rest, events = .read (ownPath s plan) answer :: rest ∧
    result.report.fixes = fixesReported s plan answer
  reads : ∀ path answer, .read path answer ∈ events → path = ownPath s plan

theorem tells_of_yields (yields : (ofPlan s plan).Yields events result) : Tells s plan events result := by
  have only {answer : Except String String} : ∀ path answer',
      FileEvent.read path answer' ∈ [.read (ownPath s plan) answer] → path = ownPath s plan := by
    intro path answer' here
    cases List.mem_singleton.mp here
    rfl
  cases yields with
  | read answer rest =>
      cases answer with
      | error cause =>
          cases rest
          exact ⟨rfl, ⟨_, _, rfl, rfl⟩, only⟩
      | ok source =>
          dsimp only at rest
          unfold ofText at rest
          dsimp only at rest
          split at rest
          · next e fails =>
            cases rest
            exact ⟨rfl, ⟨_, _, rfl, by simp [fixesReported, fails, failed]⟩, only⟩
          · next repaired done =>
            have told : fixesReported s plan (.ok source) = repaired.outcomes := by simp [fixesReported, done]
            split at rest
            · cases rest
              exact ⟨rfl, ⟨_, _, rfl, told.symm⟩, only⟩
            · split at rest
              · cases rest
                exact ⟨rfl, ⟨_, _, rfl, told.symm⟩, only⟩
              · obtain ⟨outcome, attempted, finished⟩ := FileProgram.Yields.of_map rest
                have attempt := Change.attempt_of_writeGuarded attempted
                have ⟨samePath, sameFixes⟩ := finished ▸ fixes_finish _ _ outcome
                refine ⟨samePath, ⟨_, _, rfl, sameFixes.trans told.symm⟩, fun path answer' here => ?_⟩
                rcases List.mem_cons.mp here with same | here
                · cases same
                  rfl
                · exact attempt.path_of_read here

/-- Files are repaired one after another. -/
theorem forall₂_of_ofPlans {plans : List FixPlan} {runs : List FileRun} (yields : (ofPlans s plans).Yields events runs) :
    ∃ parts : List (List FileEvent × FileRun),
      List.Forall₂ (fun plan part => (ofPlan s plan).Yields part.1 part.2) plans parts ∧
        events = parts.flatMap (·.1) ∧ runs = parts.map (·.2) := by
  induction plans generalizing events runs with
  | nil =>
      cases yields
      exact ⟨[], .nil, rfl, rfl⟩
  | cons plan plans ih =>
      obtain ⟨own, run, rest, first, behind, rfl⟩ := FileProgram.Yields.of_bind yields
      obtain ⟨runs, others, rfl⟩ := behind.of_map
      obtain ⟨parts, each, rfl, rfl⟩ := ih others
      exact ⟨(own, run) :: parts, .cons first each, rfl, rfl⟩

/-- Among the events of several files the first read of a file is the one that its repair begins with. -/
theorem find?_reads {plans : List FixPlan} {parts : List (List FileEvent × FileRun)}
    (each : List.Forall₂ (fun plan part => Tells s plan part.1 part.2) plans parts)
    (apart : plans.Pairwise fun plan other => ownPath s plan ≠ ownPath s other) {part : List FileEvent × FileRun}
    (here : part ∈ parts) : ∃ plan ∈ plans, Tells s plan part.1 part.2 ∧
      (parts.flatMap (·.1)).find? (·.reads (ownPath s plan)) = part.1.head? := by
  induction each with
  | nil => cases here
  | @cons plan first plans parts tells rest ih =>
      obtain ⟨others, apartRest⟩ := List.pairwise_cons.mp apart
      rw [List.flatMap_cons]
      rcases List.mem_cons.mp here with rfl | later
      · obtain ⟨answer, behind, events, -⟩ := tells.fixes
        refine ⟨plan, List.mem_cons_self, tells, ?_⟩
        rw [events, List.cons_append, List.find?_cons_of_pos (by simp [FileEvent.reads])]
        rfl
      · obtain ⟨owner, listed, tellsOwner, found⟩ := ih apartRest later
        have silent : first.1.find? (·.reads (ownPath s owner)) = none := by
          refine List.find?_eq_none.mpr fun event inFirst reads => ?_
          cases event with
          | read path answer =>
              have same := tells.reads path answer inFirst
              exact others owner listed (same.symm.trans (beq_iff_eq.mp reads))
          | write => cases reads
        refine ⟨owner, List.mem_cons_of_mem _ listed, tellsOwner, ?_⟩
        rw [List.find?_append, silent, Option.none_or, found]

end FileRun

/-! ### The summary -/

namespace RunSummary

/-- All files that have been counted. -/
def files (s : RunSummary) : Nat :=
  s.changedFiles + s.unchangedFiles + s.parseFailures + s.ioFailures + s.panicked

/-- The files that could not be repaired. -/
def failures (s : RunSummary) : Nat :=
  s.parseFailures + s.ioFailures + s.panicked

/-- All fixes that have been counted. -/
def fixes (s : RunSummary) : Nat :=
  s.fixesApplied + s.fixesDropped

theorem touchedFiles_count (s : RunSummary) (r : FileReport) : (s.count r).touchedFiles = s.touchedFiles := by
  unfold count
  cases r.status <;> rfl

theorem files_count (s : RunSummary) (r : FileReport) : (s.count r).files = s.files + 1 := by
  unfold count files
  cases r.status <;> (dsimp only; omega)

theorem failures_count (s : RunSummary) (r : FileReport) :
    (s.count r).failures = s.failures + if r.status.isFailure then 1 else 0 := by
  unfold count failures
  cases r.status <;> (simp only [FileStatus.isFailure, Bool.false_eq_true, if_true, if_false]; omega)

theorem fixes_count_le (s : RunSummary) (r : FileReport) : (s.count r).fixes ≤ s.fixes + r.fixes.length := by
  have applied : r.fixes.countP (·.status = .applied) ≤ r.fixes.length := List.countP_le_length
  unfold count fixes
  cases r.status <;> (dsimp only; omega)

/-- What counting some more reports comes to. -/
structure Counts (s t : RunSummary) (reports : List FileReport) : Prop where
  touchedFiles : t.touchedFiles = s.touchedFiles
  files : t.files = s.files + reports.length
  failures : t.failures = s.failures + reports.countP (·.status.isFailure)
  fixes : t.fixes ≤ s.fixes + (reports.map (·.fixes.length)).sum

theorem counts_foldl (s : RunSummary) (reports : List FileReport) : Counts s (reports.foldl count s) reports := by
  induction reports generalizing s with
  | nil => exact ⟨rfl, rfl, rfl, Nat.le_refl _⟩
  | cons r reports ih =>
      have known := ih (s.count r)
      refine ⟨known.touchedFiles.trans (s.touchedFiles_count r), ?_, ?_, ?_⟩
      · rw [List.foldl_cons, known.files, files_count, List.length_cons, Nat.add_assoc, Nat.add_comm 1]
      · rw [List.foldl_cons, known.failures, failures_count, List.countP_cons, Nat.add_assoc, Nat.add_comm (ite _ _ _)]
      · have fixes := known.fixes
        have first := s.fixes_count_le r
        rw [List.foldl_cons, List.map_cons, List.sum_cons]
        omega

end RunSummary

/-! ### The outcome of a run -/

namespace RunOutcome

/-- A run did what its preview says, and its summary counts what it did. -/
structure Agrees (doc : PlanDocument) (s : Settings) (events : List FileEvent) (o : RunOutcome) : Prop where
  intake : o.report.intake = doc.intake
  /-- The files are those whose plans have fixes. -/
  paths : (o.report.files.map (·.path)).Perm ((doc.plans.filter (!·.isEmpty)).map (·.filePath))
  nodup : (o.report.files.map (·.path)).Nodup
  /-- Where the text that was read first could be repaired, the fixes of the plan are listed one by one. -/
  fixes : ∀ report ∈ o.report.files, ∃ plan ∈ doc.plans, plan.isEmpty = false ∧ plan.filePath = report.path ∧
    ∃ answer, events.find? (·.reads (FileRun.ownPath s plan)) = some (.read (FileRun.ownPath s plan) answer) ∧
      ∀ source repaired, answer = .ok source → repair plan.filePath source plan s.repairOptions = .ok repaired →
        report.fixes = repaired.outcomes ∧
          report.fixes.map (fun fix => (fix.fixId, fix.kind)) = plan.fixes.map fun planned => (planned.id, planned.fix.label)
  touched : o.report.summary.touchedFiles = o.report.summary.changedFiles + o.report.summary.unchangedFiles +
    o.report.summary.parseFailures + o.report.summary.ioFailures + o.report.summary.panicked
  hasFailures_iff : o.report.hasFailures = true ↔
    0 < o.report.summary.parseFailures ∨ 0 < o.report.summary.ioFailures ∨ 0 < o.report.summary.panicked
  bounded : o.report.summary.fixesApplied + o.report.summary.fixesDropped ≤ (doc.plans.map (·.fixes.length)).sum

variable {s : Settings} {tool : ToolInfo} {times : RunTimes} {i : Intake} {events : List FileEvent}

theorem filePath_foldl_push (fixes : List Fix) (plan : FixPlan) : (fixes.foldl FixPlan.push plan).filePath = plan.filePath := by
  induction fixes generalizing plan with
  | nil => rfl
  | cons fix fixes ih =>
      rw [List.foldl_cons, ih, FixPlan.push]
      split <;> rfl

theorem filePath_planFile (v : Vocabulary) (filePath : String) (diagnostics : List Diagnostic) :
    (planFile v filePath diagnostics).filePath = filePath :=
  filePath_foldl_push _ _

theorem inPassOrder_of_mem_planFiles {v : Vocabulary} {files : List (String × List Diagnostic)} {plan : FixPlan}
    (here : plan ∈ planFiles v files) : plan.inPassOrder = plan.fixes := by
  obtain ⟨⟨filePath, diagnostics⟩, -, rfl⟩ := List.mem_map.mp here
  exact inPassOrder_planFile v filePath diagnostics

/-- No two plans are for one file. -/
theorem pairwise_plansToRun {isFile : String → Bool} {report : Json} (taken : Intake.ofReport s.intake isFile report = .ok i) :
    (plansToRun s i).Pairwise fun plan other => FileRun.ownPath s plan ≠ FileRun.ownPath s other := by
  refine ((List.pairwise_map.mpr ((Intake.pairwise_place taken).imp ?_)).filter _)
  intro group other apart same
  rw [FileRun.ownPath, FileRun.ownPath, filePath_planFile, filePath_planFile] at same
  exact apart (congrArg Path.bare same)

/-- The fixes that are told of a file are at most those of its plan. -/
theorem length_fixesReported_le {plan : FixPlan} (inOrder : plan.inPassOrder = plan.fixes)
    (answer : Except String String) : (FileRun.fixesReported s plan answer).length ≤ plan.fixes.length := by
  unfold FileRun.fixesReported
  cases answer with
  | error cause => exact Nat.zero_le _
  | ok source =>
      dsimp only
      cases done : repair plan.filePath source plan s.repairOptions with
      | error e => exact Nat.zero_le _
      | ok repaired =>
          have same := congrArg List.length (labels_repair done)
          rw [List.length_map, List.length_map, inOrder] at same
          exact Nat.le_of_eq same

theorem sum_length_fixes_le {plans : List FixPlan} {parts : List (List FileEvent × FileRun)}
    (tells : List.Forall₂ (fun plan part => FileRun.Tells s plan part.1 part.2) plans parts)
    (inOrder : ∀ plan ∈ plans, plan.inPassOrder = plan.fixes) :
    (parts.map (·.2.report.fixes.length)).sum ≤ (plans.map (·.fixes.length)).sum := by
  induction tells with
  | nil => exact Nat.le_refl _
  | cons told _ ih =>
      obtain ⟨first, others⟩ := List.forall_mem_cons.mp inOrder
      obtain ⟨answer, -, -, fixes⟩ := told.fixes
      rw [List.map_cons, List.map_cons, List.sum_cons, List.sum_cons, fixes]
      exact Nat.add_le_add (length_fixesReported_le first answer) (ih others)

section Report

variable (s : Settings) (tool : ToolInfo) (stats : IntakeStats) (times : RunTimes) (touched : Nat) (runs : List FileRun)

/-- The report lists every file that was repaired, in the order of their paths. -/
theorem perm_files : (ofFileRuns s tool stats times touched runs).report.files.Perm (runs.map (·.report)) :=
  (List.mergeSort_perm _ _).map _

/-- The summary counts the files that the report lists. -/
theorem counts_summary : RunSummary.Counts { touchedFiles := touched }
    (ofFileRuns s tool stats times touched runs).report.summary (ofFileRuns s tool stats times touched runs).report.files :=
  RunSummary.counts_foldl _ _

end Report

theorem hasFailures_iff {report : RunReport} {touched : Nat}
    (counts : RunSummary.Counts { touchedFiles := touched } report.summary report.files) :
    report.hasFailures = true ↔
      0 < report.summary.parseFailures ∨ 0 < report.summary.ioFailures ∨ 0 < report.summary.panicked := by
  have failures := counts.failures
  have none : RunSummary.failures { touchedFiles := touched } = 0 := rfl
  rw [none, Nat.zero_add, RunSummary.failures] at failures
  rw [RunReport.hasFailures, List.any_eq_true, ← List.countP_pos_iff]
  omega

/-- The preview of an intake, the run over its files and the summary of that run agree, whatever the files hold. -/
theorem preview_and_run_agree (s : Settings) (tool : ToolInfo) (times : RunTimes) (isFile : String → Bool)
    (report : Json) (i : Intake) (taken : Intake.ofReport s.intake isFile report = .ok i) (events : List FileEvent)
    (o : RunOutcome) (yields : (ofIntake s tool times i).Yields events o) :
    o.Agrees (PlanDocument.ofIntake s tool i) s events := by
  obtain ⟨runs, ran, rfl⟩ := yields.of_map
  obtain ⟨parts, each, rfl, rfl⟩ := FileRun.forall₂_of_ofPlans ran
  have tells : List.Forall₂ (fun plan part => FileRun.Tells s plan part.1 part.2) (plansToRun s i) parts :=
    each.imp fun _ _ => FileRun.tells_of_yields
  have planned {plan : FixPlan} (here : plan ∈ plansToRun s i) : plan ∈ planFiles s.vocabulary i.files :=
    (List.mem_filter.mp here).1
  have files := perm_files s tool i.stats times (plansToRun s i).length (parts.map (·.2))
  have counts := counts_summary s tool i.stats times (plansToRun s i).length (parts.map (·.2))
  rw [List.map_map] at files
  have listed : ((ofFileRuns s tool i.stats times (plansToRun s i).length (parts.map (·.2))).report.files.map (·.path)).Perm
      ((plansToRun s i).map (·.filePath)) := by
    refine (files.map _).trans (.of_eq ?_)
    rw [List.map_map, ← List.forall₂_eq_eq_eq, List.forall₂_map_left_iff, List.forall₂_map_right_iff]
    exact tells.flip.imp fun _ _ told => told.path
  refine ⟨rfl, listed, listed.nodup_iff.mpr ?_, fun report here => ?_, ?_, hasFailures_iff counts, ?_⟩
  · refine List.pairwise_map.mpr ((pairwise_plansToRun taken).imp fun apart same => apart ?_)
    rw [FileRun.ownPath, FileRun.ownPath, same]
  · obtain ⟨part, inParts, rfl⟩ := List.mem_map.mp (files.mem_iff.mp here)
    obtain ⟨plan, toRun, told, found⟩ := FileRun.find?_reads tells (pairwise_plansToRun taken) inParts
    obtain ⟨answer, rest, events, fixes⟩ := told.fixes
    rw [events] at found
    refine ⟨plan, planned toRun, by simpa using (List.mem_filter.mp toRun).2, told.path.symm, answer, found, ?_⟩
    rintro source repaired rfl done
    have outcomes : part.2.report.fixes = repaired.outcomes := by
      rw [fixes, FileRun.fixesReported, done]
    refine ⟨outcomes, ?_⟩
    rw [Function.comp_apply, outcomes, labels_repair done, inPassOrder_of_mem_planFiles (planned toRun)]
  · have total := counts.files
    rw [files.length_eq, List.length_map, ← tells.length_eq] at total
    exact counts.touchedFiles.trans (total.trans (Nat.zero_add _)).symm
  · calc RunSummary.fixes _
        ≤ 0 + ((ofFileRuns s tool i.stats times (plansToRun s i).length (parts.map (·.2))).report.files.map
            (·.fixes.length)).sum := counts.fixes
      _ = (parts.map (·.2.report.fixes.length)).sum := by
        rw [Nat.zero_add, (files.map _).sum_eq, List.map_map]
        rfl
      _ ≤ ((plansToRun s i).map (·.fixes.length)).sum :=
        sum_length_fixes_le tells fun plan here => inPassOrder_of_mem_planFiles (planned here)
      _ ≤ ((planFiles s.vocabulary i.files).map (·.fixes.length)).sum :=
        List.Sublist.sum_le_sum (List.filter_sublist.map _) fun _ _ => Nat.zero_le _

/-- Every file holds the same text, and every write succeeds. -/
def steadyAccess (text : String) : FileAccess (StateM Unit) where
  read _ := pure (.ok text)
  write _ _ := pure (.ok ())

set_option maxRecDepth 100000 in
/-- A run over one file, of a report that mentions it twice. -/
theorem run_of_mixedReport_agrees : ∃ i events o,
    Intake.ofReport { repoRoot := "/repo" } (· == "src/A.js") Intake.mixedReport = .ok i ∧
      (plansToRun { intake := { repoRoot := "/repo" } } i).length = 1 ∧
      (ofIntake { intake := { repoRoot := "/repo" } } ⟨"tool", none⟩ {} i).Yields events o ∧
      o.Agrees (PlanDocument.ofIntake { intake := { repoRoot := "/repo" } } ⟨"tool", none⟩ i)
        { intake := { repoRoot := "/repo" } } events := by
  have one : (Intake.ofReport { repoRoot := "/repo" } (· == "src/A.js") Intake.mixedReport).toOption.map
      (fun i => (plansToRun { intake := { repoRoot := "/repo" } } i).length) = some 1 := by decide +kernel
  cases taken : Intake.ofReport { repoRoot := "/repo" } (· == "src/A.js") Intake.mixedReport with
  | error e => rw [taken] at one; cases one
  | ok i =>
      rw [taken] at one
      have ⟨events, yields, _⟩ := FileProgram.run_recording (steadyAccess "toast()")
        (ofIntake { intake := { repoRoot := "/repo" } } ⟨"tool", none⟩ {} i) () []
      exact ⟨i, events, _, rfl, Option.some.inj one, yields,
        preview_and_run_agree _ _ {} _ _ i taken events _ yields⟩

end RunOutcome

end BindingRepair
