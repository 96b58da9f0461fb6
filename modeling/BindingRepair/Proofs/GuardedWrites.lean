/-
# Guarded writes

A file is overwritten only with the repaired text, only if it still held the text that was repaired when
it was looked at again, and, where copies are wanted, only after the old text has been put aside. It does
not matter how reads and writes are answered: each of them may fail, and the file may change in between.

The copy must have a path of its own. With an empty suffix the copy is the file, which is then written
twice.
-/

import BindingRepair.Proofs.FileTraces
import BindingRepair.Proofs.Grammar.Parsed
import BindingRepair.Run.FileRun

namespace BindingRepair

namespace FileEvent

/-- Whether something is written, be it without success. -/
def isWrite : FileEvent → Bool
  | read .. => false
  | write .. => true

/-- Whether something is written to the file of a path, be it without success. -/
def writesTo (own : String) : FileEvent → Bool
  | read .. => false
  | write path .. => Path.components path == Path.components own

/-- Whether the file of a path has got a text. -/
def overwrites (own : String) : FileEvent → Bool
  | write path _ (.ok ()) => Path.components path == Path.components own
  | _ => false

@[simp] theorem isWrite_read (path : String) (answer : Except String String) :
    (read path answer).isWrite = false := rfl

@[simp] theorem writesTo_read (own path : String) (answer : Except String String) :
    (read path answer).writesTo own = false := rfl

@[simp] theorem overwrites_read (own path : String) (answer : Except String String) :
    (read path answer).overwrites own = false := rfl

@[simp] theorem writesTo_write_self (own text : String) (answer : Except String Unit) :
    (write own text answer).writesTo own = true :=
  beq_self_eq_true _

theorem writesTo_write_of_ne {own path : String} (other : Path.components path ≠ Path.components own)
    (text : String) (answer : Except String Unit) : (write path text answer).writesTo own = false :=
  beq_eq_false_iff_ne.mpr other

@[simp] theorem overwrites_write_ok (own path text : String) :
    (write path text (.ok ())).overwrites own = (write path text (.ok ())).writesTo own := rfl

@[simp] theorem overwrites_write_error (own path text cause : String) :
    (write path text (.error cause)).overwrites own = false := rfl

/-- What overwrites a file writes to it. -/
theorem writesTo_of_overwrites {own : String} {event : FileEvent}
    (overwrites : event.overwrites own = true) : event.writesTo own = true := by
  cases event with
  | read => cases overwrites
  | write path text answer =>
    cases answer with
    | error => cases overwrites
    | ok => exact overwrites

end FileEvent

namespace FileRun

/-- The path under which the file of a plan is read and written. -/
def ownPath (s : Settings) (plan : FixPlan) : String :=
  Path.join s.intake.repoRoot plan.filePath

/-- What has been done when a text is about to be overwritten: the file has been looked at again, and
where copies are wanted its old text has one. -/
def precautions (s : Settings) (own source current : String) : List FileEvent :=
  .read own (.ok current) ::
    if s.backupEnabled then [.write (backupPath own s.backupSuffix) source (.ok ())] else []

namespace Change

/-- What can come of writing a changed text. -/
inductive Attempt (s : Settings) (c : Change) :
    List FileEvent → Except WriteFailure (Option String) → Prop
  | unread (cause : String) :
      Attempt s c [.read c.path (.error cause)] (.error ⟨.readFailed, cause⟩)
  | stale (current : String) :
      Attempt s c [.read c.path (.ok current)]
        (.error ⟨.preconditionFailed, "file changed since it was read"⟩)
  | uncopied (current cause : String)
      (same : Digest.Sha256.hexOfText current = Digest.Sha256.hexOfText c.source)
      (wanted : s.backupEnabled = true) :
      Attempt s c
        [.read c.path (.ok current), .write (backupPath c.path s.backupSuffix) c.source (.error cause)]
        (.error ⟨.writeFailed, "backup: " ++ cause⟩)
  | unwritten (current cause : String)
      (same : Digest.Sha256.hexOfText current = Digest.Sha256.hexOfText c.source) :
      Attempt s c (precautions s c.path c.source current ++ [.write c.path c.output (.error cause)])
        (.error ⟨.writeFailed, cause⟩)
  | written (current : String) (backup : Option String)
      (same : Digest.Sha256.hexOfText current = Digest.Sha256.hexOfText c.source) :
      Attempt s c (precautions s c.path c.source current ++ [.write c.path c.output (.ok ())])
        (.ok backup)

variable {s : Settings} {c : Change} {backup : Option String} {events : List FileEvent}
  {outcome : Except WriteFailure (Option String)}

@[simp] theorem status_finish_ok (report : FileReport) :
    (c.finish report (.ok backup)).report.status = .changed := rfl

theorem attempt_of_write {current : String}
    (same : Digest.Sha256.hexOfText current = Digest.Sha256.hexOfText c.source)
    (yields : (c.write backup).Yields events outcome) :
    Attempt s c (precautions s c.path c.source current ++ events) outcome := by
  cases yields with
  | write answer rest =>
    cases answer with
    | error cause => cases rest; exact .unwritten current cause same
    | ok => cases rest; exact .written current backup same

theorem attempt_of_copyAndWrite {current : String}
    (same : Digest.Sha256.hexOfText current = Digest.Sha256.hexOfText c.source)
    (yields : (c.copyAndWrite s).Yields events outcome) :
    Attempt s c (.read c.path (.ok current) :: events) outcome := by
  unfold copyAndWrite at yields
  split at yields
  case isTrue wanted =>
    cases yields with
    | write answer rest =>
      cases answer with
      | error cause => cases rest; exact .uncopied current cause same wanted
      | ok =>
        have attempt : Attempt s c _ outcome := attempt_of_write same rest
        rwa [precautions, if_pos wanted] at attempt
  case isFalse unwanted =>
    have attempt : Attempt s c _ outcome := attempt_of_write same yields
    rwa [precautions, if_neg unwanted] at attempt

/-- All that writing a changed text can do. -/
theorem attempt_of_writeGuarded (yields : (c.writeGuarded s).Yields events outcome) :
    Attempt s c events outcome := by
  cases yields with
  | read answer rest =>
    cases answer with
    | error cause => cases rest; exact .unread cause
    | ok current =>
      dsimp only at rest
      split at rest
      case isTrue => cases rest; exact .stale current
      case isFalse same => exact attempt_of_copyAndWrite (not_not.mp same) rest

/-- Where the copy has a path of its own, what comes before the last write leaves the file alone. -/
theorem writesTo_precautions {own source current : String}
    (apart : s.backupEnabled = true →
      Path.components (backupPath own s.backupSuffix) ≠ Path.components own) :
    ∀ event ∈ precautions s own source current, event.writesTo own = false := by
  intro event listed
  rcases List.mem_cons.mp listed with rfl | listed
  · rfl
  · split at listed
    case isTrue wanted =>
      rw [List.mem_singleton.mp listed]
      exact FileEvent.writesTo_write_of_ne (apart wanted) _ _
    case isFalse => cases listed

/-- An attempt leaves the file alone and fails, or it takes the precautions and writes the new text, and
then it succeeds if that write does. -/
theorem Attempt.last_write (attempt : Attempt s c events outcome)
    (apart : s.backupEnabled = true →
      Path.components (backupPath c.path s.backupSuffix) ≠ Path.components c.path) :
    ((∀ event ∈ events, event.writesTo c.path = false) ∧
      ∃ failure, outcome = .error failure ∧ failure.status ≠ .changed) ∨
    ∃ current answer,
      Digest.Sha256.hexOfText current = Digest.Sha256.hexOfText c.source ∧
      events = precautions s c.path c.source current ++ [.write c.path c.output answer] ∧
      ((∃ cause failure, answer = .error cause ∧ outcome = .error failure ∧
        failure.status ≠ .changed) ∨ ∃ backup, answer = .ok () ∧ outcome = .ok backup) := by
  cases attempt with
  | unread cause => exact .inl ⟨by simp, _, rfl, nofun⟩
  | stale current => exact .inl ⟨by simp, _, rfl, nofun⟩
  | uncopied current cause same wanted =>
    have elsewhere := FileEvent.writesTo_write_of_ne (apart wanted) c.source (.error cause)
    exact .inl ⟨by simp [elsewhere], _, rfl, nofun⟩
  | unwritten current cause same =>
    exact .inr ⟨current, _, same, rfl, .inl ⟨cause, _, rfl, rfl, nofun⟩⟩
  | written current backup same => exact .inr ⟨current, _, same, rfl, .inr ⟨backup, rfl, rfl⟩⟩

/-- Where nothing fails and the file still holds its text, the new text is written. -/
theorem yields_writeGuarded (s : Settings) (c : Change) :
    ∃ backup, (c.writeGuarded s).Yields
      (precautions s c.path c.source c.source ++ [.write c.path c.output (.ok ())]) (.ok backup) := by
  have writing (backup : Option String) :
      (c.write backup).Yields [.write c.path c.output (.ok ())] (.ok backup) :=
    .write (.ok ()) (.done _)
  have copying : ∃ backup, (c.copyAndWrite s).Yields
      ((precautions s c.path c.source c.source).tail ++ [.write c.path c.output (.ok ())])
      (.ok backup) := by
    unfold copyAndWrite precautions
    split
    · exact ⟨_, .write (.ok ()) (writing _)⟩
    · exact ⟨_, writing none⟩
  obtain ⟨backup, copied⟩ := copying
  refine ⟨backup, .read (.ok c.source) ?_⟩
  simp only [ne_eq, not_true_eq_false, if_false]
  exact copied

end Change

/-- The repair of a text by a plan succeeds and changes it to `text`. -/
def Repairs (s : Settings) (plan : FixPlan) (source text : String) : Prop :=
  ∃ repaired, repair plan.filePath source plan s.repairOptions = .ok repaired ∧
    repaired.changed = true ∧ repaired.output = text

/-- All that the repair of a file can do, and with which result. -/
inductive Course (s : Settings) (plan : FixPlan) : List FileEvent → FileRun → Prop
  /-- The file is left as it is. -/
  | stopped {answer : Except String String} {result : FileRun}
      (unchanged : ∀ source text, answer = .ok source → ¬ Repairs s plan source text)
      (status : result.report.status ≠ .changed) (patch : result.patch = "") :
      Course s plan [.read (ownPath s plan) answer] result
  /-- Nothing is written, as is wanted. -/
  | previewed {source text : String} {result : FileRun} (preview : s.dryRun = true)
      (repairs : Repairs s plan source text) (status : result.report.status = .changed) :
      Course s plan [.read (ownPath s plan) (.ok source)] result
  /-- The new text is to be written. -/
  | attempted {source text : String} {events : List FileEvent} (c : Change) (report : FileReport)
      {outcome : Except WriteFailure (Option String)} (wet : s.dryRun = false)
      (repairs : Repairs s plan source text)
      (change : c.path = ownPath s plan ∧ c.source = source ∧ c.output = text)
      (attempt : Change.Attempt s c events outcome) :
      Course s plan (.read (ownPath s plan) (.ok source) :: events) (c.finish report outcome)

section

variable {s : Settings} {plan : FixPlan} {events : List FileEvent} {result : FileRun}

theorem course_of_ofText {source : String}
    (yields : (ofText s plan (ownPath s plan) source).Yields events result) :
    Course s plan (.read (ownPath s plan) (.ok source) :: events) result := by
  unfold ofText at yields
  dsimp only at yields
  split at yields
  case h_1 e failed =>
    cases yields
    exact .stopped (fun _ _ same ⟨_, ok, _⟩ => by cases same; rw [failed] at ok; cases ok)
      nofun rfl
  case h_2 repaired done =>
    split at yields
    case isTrue unchanged =>
      cases yields
      exact .stopped (fun _ _ same ⟨_, ok, changed, _⟩ => by
        cases same; rw [done] at ok; cases ok; simp [changed] at unchanged) nofun rfl
    case isFalse changed =>
      have repairs : Repairs s plan source repaired.output := ⟨repaired, done, by simpa using changed, rfl⟩
      split at yields
      case isTrue preview => cases yields; exact .previewed preview repairs rfl
      case isFalse wet =>
        have ⟨outcome, attempt, finished⟩ := FileProgram.Yields.of_map yields
        rw [finished]
        exact .attempted _ _ (by simpa using wet) repairs ⟨rfl, rfl, rfl⟩
          (Change.attempt_of_writeGuarded attempt)

/-- The repair of a file takes one of the courses. -/
theorem course_of_ofPlan (yields : (ofPlan s plan).Yields events result) :
    Course s plan events result := by
  cases yields with
  | read answer rest =>
    cases answer with
    | error cause => cases rest; exact .stopped (by intros; contradiction) nofun rfl
    | ok source => exact course_of_ofText rest

/-- Where an element is marked and only the last one may be, it is the last one. -/
theorem eq_of_marked {α : Type} {marked : α → Bool} {front before after : List α} {last x : α}
    (plain : ∀ y ∈ front, marked y = false) (here : marked x = true)
    (parts : front ++ [last] = before ++ x :: after) : before = front ∧ x = last := by
  rcases List.eq_nil_or_concat after with rfl | ⟨rest, y, rfl⟩
  · have ⟨same, ends⟩ := List.append_inj' parts rfl
    exact ⟨same.symm, (List.singleton_inj.mp ends).symm⟩
  · rw [List.concat_eq_append, ← List.cons_append, ← List.append_assoc] at parts
    have ⟨same, _⟩ := List.append_inj' parts rfl
    have plainly := plain x (by rw [same]; simp)
    rw [here] at plainly
    cases plainly

/-- A file is written at most once, with care, and what is reported of it is what has been done. -/
structure IsGuarded (s : Settings) (plan : FixPlan) (events : List FileEvent) (result : FileRun) :
    Prop where
  once : events.countP (·.writesTo (ownPath s plan)) ≤ 1
  /-- What comes before a write of the file: the text that was repaired has been read, and has been
  found again with the same digest, and where copies are wanted it has one. -/
  careful : ∀ before path text answer after, events = before ++ .write path text answer :: after →
    Path.components path = Path.components (ownPath s plan) →
    s.dryRun = false ∧ ∃ source current, Repairs s plan source text ∧
      Digest.Sha256.hexOfText current = Digest.Sha256.hexOfText source ∧
      before = .read (ownPath s plan) (.ok source) :: precautions s (ownPath s plan) source current
  previewed : s.dryRun = true → ∀ event ∈ events, event.isWrite = false
  changed_iff : result.report.status = .changed ↔
    (∃ source text, events.head? = some (.read (ownPath s plan) (.ok source)) ∧
      Repairs s plan source text) ∧
    (s.dryRun = true ∨ ∃ event ∈ events, event.overwrites (ownPath s plan) = true)
  kept : result.report.status ≠ .changed →
    (∀ event ∈ events, event.overwrites (ownPath s plan) = false) ∧ result.patch = ""

namespace IsGuarded

/-- Without a write of the file nothing has to be guarded. -/
theorem of_unwritten (unwritten : ∀ event ∈ events, event.writesTo (ownPath s plan) = false)
    (previewed : s.dryRun = true → ∀ event ∈ events, event.isWrite = false)
    (changed_iff : result.report.status = .changed ↔
      (∃ source text, events.head? = some (.read (ownPath s plan) (.ok source)) ∧
        Repairs s plan source text) ∧ s.dryRun = true)
    (patch : result.report.status ≠ .changed → result.patch = "") : IsGuarded s plan events result := by
  have kept : ∀ event ∈ events, event.overwrites (ownPath s plan) = false := by
    intro event listed
    by_contra overwritten
    have written := FileEvent.writesTo_of_overwrites (Bool.not_eq_false _ ▸ overwritten)
    rw [unwritten event listed] at written
    cases written
  exact
    { once := by
        rw [List.countP_eq_zero.mpr fun event listed => by simp [unwritten event listed]]
        exact Nat.zero_le 1
      careful := by
        intro before path text answer after parts same
        have written := unwritten (.write path text answer) (by rw [parts]; simp)
        simp [FileEvent.writesTo, same] at written
      previewed
      changed_iff := by
        rw [changed_iff]
        have none : ¬ ∃ event ∈ events, event.overwrites (ownPath s plan) = true := by
          rintro ⟨event, listed, overwritten⟩
          rw [kept event listed] at overwritten
          cases overwritten
        rw [or_iff_left none]
      kept := fun unchanged => ⟨kept, patch unchanged⟩ }

/-- A write of the file that follows the precautions is guarded. -/
theorem of_written {source text current : String} {answer : Except String Unit}
    (apart : s.backupEnabled = true →
      Path.components (backupPath (ownPath s plan) s.backupSuffix) ≠
        Path.components (ownPath s plan))
    (wet : s.dryRun = false) (repairs : Repairs s plan source text)
    (same : Digest.Sha256.hexOfText current = Digest.Sha256.hexOfText source)
    (events_eq : events = .read (ownPath s plan) (.ok source) ::
      precautions s (ownPath s plan) source current ++ [.write (ownPath s plan) text answer])
    (status : result.report.status = .changed ↔ answer = .ok ())
    (patch : result.report.status ≠ .changed → result.patch = "") : IsGuarded s plan events result := by
  have plain : ∀ event ∈ FileEvent.read (ownPath s plan) (.ok source) ::
      precautions s (ownPath s plan) source current, event.writesTo (ownPath s plan) = false :=
    List.forall_mem_cons.mpr ⟨rfl, Change.writesTo_precautions apart⟩
  have overwritten_iff : (∃ event ∈ events, event.overwrites (ownPath s plan) = true) ↔ answer = .ok () := by
    rw [events_eq]
    constructor
    · rintro ⟨event, listed, overwritten⟩
      rcases List.mem_append.mp listed with listed | listed
      · have written := FileEvent.writesTo_of_overwrites overwritten
        rw [plain event listed] at written
        cases written
      · rw [List.mem_singleton.mp listed] at overwritten
        cases answer with
        | error cause => cases overwritten
        | ok => rfl
    · rintro rfl
      exact ⟨_, List.mem_append_right _ (List.mem_singleton_self _), by simp⟩
  exact
    { once := by
        rw [events_eq, List.countP_append, List.countP_eq_zero.mpr fun event listed => by
          simp [plain event listed]]
        simp
      careful := by
        intro before path text' answer' after parts own
        have written : (FileEvent.write path text' answer').writesTo (ownPath s plan) = true :=
          beq_iff_eq.mpr own
        have ⟨front, last⟩ := eq_of_marked plain written (events_eq ▸ parts)
        cases last
        exact ⟨wet, source, current, repairs, same, front⟩
      previewed := fun preview => by rw [wet] at preview; cases preview
      changed_iff := by
        rw [status, overwritten_iff, events_eq, or_iff_right (by rw [wet]; nofun)]
        exact (and_iff_right ⟨source, text, rfl, repairs⟩).symm
      kept := by
        intro unchanged
        have kept : ¬ ∃ event ∈ events, event.overwrites (ownPath s plan) = true := by
          rwa [overwritten_iff, ← status]
        exact ⟨fun event listed => Bool.eq_false_iff.mpr fun overwritten => kept ⟨event, listed, overwritten⟩,
          patch unchanged⟩ }

end IsGuarded

/-- However reads and writes are answered, a file is written at most once and with care, provided that
its copy has a path of its own. -/
theorem writes_are_guarded (s : Settings) (plan : FixPlan)
    (apart : s.backupEnabled = true →
      Path.components (backupPath (ownPath s plan) s.backupSuffix) ≠ Path.components (ownPath s plan))
    (events : List FileEvent) (result : FileRun) (yields : (ofPlan s plan).Yields events result) :
    IsGuarded s plan events result := by
  cases course_of_ofPlan yields with
  | stopped unchanged status patch =>
    apply IsGuarded.of_unwritten
    · simp
    · simp
    · rw [iff_false_left status]
      rintro ⟨⟨source, text, first, repairs⟩, _⟩
      exact unchanged source text (by simpa using first) repairs
    · exact fun _ => patch
  | previewed preview repairs status =>
    apply IsGuarded.of_unwritten
    · simp
    · simp
    · exact iff_of_true status ⟨⟨_, _, rfl, repairs⟩, preview⟩
    · exact fun unchanged => absurd status unchanged
  | attempted c report wet repairs change attempt =>
    obtain ⟨path, rfl, rfl⟩ := change
    rw [← path] at apart
    rcases attempt.last_write apart with ⟨unwritten, failure, rfl, status⟩ |
      ⟨current, answer, same, rfl, outcome⟩
    · apply IsGuarded.of_unwritten
      · rw [path] at unwritten
        exact List.forall_mem_cons.mpr ⟨rfl, unwritten⟩
      · exact fun preview => by rw [wet] at preview; cases preview
      · exact iff_of_false status fun both => by rw [wet] at both; exact nomatch both.2
      · exact fun _ => rfl
    · rw [path] at apart ⊢
      apply IsGuarded.of_written apart wet repairs same rfl
      · rcases outcome with ⟨cause, failure, rfl, rfl, status⟩ | ⟨backup, rfl, rfl⟩
        · exact iff_of_false status nofun
        · exact iff_of_true (Change.status_finish_ok ..) rfl
      · rcases outcome with ⟨cause, failure, rfl, rfl, status⟩ | ⟨backup, rfl, rfl⟩
        · exact fun _ => rfl
        · exact fun unchanged => absurd (Change.status_finish_ok ..) unchanged

/-- Where nothing fails and the file does not change, the new text is written. -/
theorem yields_of_repairs {source text : String} (wet : s.dryRun = false)
    (repairs : Repairs s plan source text) :
    ∃ result, (ofPlan s plan).Yields (.read (ownPath s plan) (.ok source) ::
        precautions s (ownPath s plan) source source ++ [.write (ownPath s plan) text (.ok ())]) result ∧
      result.report.status = .changed := by
  obtain ⟨repaired, done, changed, rfl⟩ := repairs
  let c : Change :=
    { filePath := plan.filePath, path := ownPath s plan, source, output := repaired.output }
  have ⟨backup, written⟩ := c.yields_writeGuarded s
  have finished (report : FileReport) := written.map (c.finish report)
  have repaired : ∃ report, ofText s plan (ownPath s plan) source =
      (c.writeGuarded s).map (c.finish report) := by
    unfold ofText
    simp only [done, changed, wet]
    exact ⟨_, rfl⟩
  have ⟨report, same⟩ := repaired
  exact ⟨_, .read (.ok source) (same ▸ finished report), rfl⟩

/-- A run over files that is to write nothing writes nothing. -/
theorem ofPlans_of_dryRun (dry : s.dryRun = true) {plans : List FixPlan} {results : List FileRun}
    (yields : (ofPlans s plans).Yields events results) : ∀ event ∈ events, event.isWrite = false := by
  induction plans generalizing events results with
  | nil => cases yields; simp
  | cons plan plans ih =>
    have ⟨first, result, rest, before, behind, parts⟩ := FileProgram.Yields.of_bind yields
    have ⟨_, others, _⟩ := behind.of_map
    have quiet : ∀ event ∈ first, event.isWrite = false := by
      cases course_of_ofPlan before with
      | stopped | previewed => simp
      | attempted _ _ wet => rw [dry] at wet; cases wet
    rw [parts]
    exact List.forall_mem_append.mpr ⟨quiet, ih others⟩

end

end FileRun

section Copies

def sonnerPlan : FixPlan where
  filePath := "A.js"
  fixes := [.mk "1" (.importMerge "sonner" ["toast"] false)]

/-- Files are copied before they are overwritten. -/
def withCopies (suffix : String) : Settings where
  backupEnabled := true
  backupSuffix := suffix

set_option maxRecDepth 100000 in
theorem repairs_sonnerPlan (suffix : String) :
    FileRun.Repairs (withCopies suffix) sonnerPlan "toast()" "import \x7b toast \x7d from 'sonner'\ntoast()" := by
  obtain ⟨repaired, done, test⟩ := Script.exists_ok_of_test
    (repair "A.js" "toast()" sonnerPlan {})
    (fun repaired => repaired.changed && repaired.output == "import \x7b toast \x7d from 'sonner'\ntoast()")
    (by decide +kernel)
  rw [Bool.and_eq_true, beq_iff_eq] at test
  exact ⟨repaired, done, test.1, test.2⟩

/-- A file that gets a copy is overwritten with care. -/
theorem guarded_write_with_copy : ∃ events result,
    (FileRun.ofPlan (withCopies ".bak") sonnerPlan).Yields events result ∧
      result.report.status = .changed ∧
      FileRun.IsGuarded (withCopies ".bak") sonnerPlan events result := by
  have ⟨result, yields, changed⟩ := FileRun.yields_of_repairs rfl (repairs_sonnerPlan ".bak")
  have apart : Path.components (backupPath (FileRun.ownPath (withCopies ".bak") sonnerPlan) ".bak") ≠
      Path.components (FileRun.ownPath (withCopies ".bak") sonnerPlan) := by
    decide +kernel
  exact ⟨_, result, yields, changed, FileRun.writes_are_guarded _ _ (fun _ => apart) _ _ yields⟩

/-- With an empty suffix the copy overwrites the file, and the file is written twice. -/
theorem unguarded_write_of_empty_suffix :
    ¬ ∀ (s : Settings) (plan : FixPlan) (events : List FileEvent) (result : FileRun),
      (FileRun.ofPlan s plan).Yields events result → FileRun.IsGuarded s plan events result := by
  intro guarded
  have ⟨result, yields, _⟩ := FileRun.yields_of_repairs rfl (repairs_sonnerPlan "")
  have once := (guarded _ _ _ _ yields).once
  revert once
  decide +kernel

end Copies

end BindingRepair
