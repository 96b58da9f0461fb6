/-
# What an intake holds

Each record of a report is counted once, and each diagnostic that is accepted stands in the group of its file,
behind those that were reported before it. A grouped diagnostic can be repaired: it must be fixed, it is
about a name, and its file may be edited.

The invariant is stated for any list of verdicts. What is known of a verdict itself is added at the end.
-/

import BindingRepair.Proofs.ManagedPaths
import BindingRepair.Proofs.SortedTables
import Mathlib.Algebra.GroupWithZero.Nat
import Mathlib.Data.List.Induction
import Mathlib.Logic.Relation

namespace BindingRepair

/-- The diagnostic that a verdict accepts. -/
def Verdict.diagnostic? : Verdict → Option Diagnostic
  | .accepted _ diagnostic => some diagnostic
  | _ => none

/-- An accepted diagnostic names its file by the names that lead to it. -/
def Verdict.NamesFile (v : Verdict) : Prop :=
  ∀ names diagnostic, v = .accepted names diagnostic →
    (∀ name ∈ names, Path.IsName name) ∧ diagnostic.filePath = Path.ofNames names

/-- All records that were not accepted. -/
def IntakeStats.rejected (s : IntakeStats) : Nat :=
  s.malformed + s.ignoredRule + s.belowSeverity + s.outsideTree + s.excluded + s.unsupportedExtension +
    s.missingFile

namespace Intake

/-! ### Groups -/

/-- The accepted diagnostics of some verdicts, by file and in order. -/
structure Groups (groups : SortedTable (List String) (List Diagnostic)) (verdicts : List Verdict) : Prop where
  ascending : groups.Ascending Path.before
  names : ∀ group ∈ groups, ∀ name ∈ group.1, Path.IsName name
  mem_iff : ∀ names, (∀ name ∈ names, Path.IsName name) → ∀ diagnostics, (names, diagnostics) ∈ groups ↔
    diagnostics ≠ [] ∧
      diagnostics = (verdicts.filterMap Verdict.diagnostic?).filter (·.filePath = Path.ofNames names)

namespace Groups

variable {groups : SortedTable (List String) (List Diagnostic)} {verdicts : List Verdict} {names : List String}

theorem empty : Groups [] [] :=
  ⟨.nil, nofun, fun _ _ diagnostics => by simp⟩

/-- What has been accepted for a file so far. -/
theorem lookup (known : Groups groups verdicts) (are : ∀ name ∈ names, Path.IsName name) :
    (groups.lookup names).getD [] =
      (verdicts.filterMap Verdict.diagnostic?).filter (·.filePath = Path.ofNames names) := by
  cases found : groups.lookup names with
  | some diagnostics =>
      have here := (known.ascending.lookup_eq_some_iff Path.isOrder_before).mp found
      exact ((known.mem_iff names are diagnostics).mp here).2
  | none =>
      by_contra differs
      have here := (known.mem_iff names are _).mpr ⟨Ne.symm differs, rfl⟩
      rw [← known.ascending.lookup_eq_some_iff Path.isOrder_before, found] at here
      cases here

/-- A verdict that accepts nothing changes nothing. -/
theorem skip (known : Groups groups verdicts) {v : Verdict} (nothing : v.diagnostic? = none) :
    Groups groups (verdicts ++ [v]) := by
  have same : (verdicts ++ [v]).filterMap Verdict.diagnostic? = verdicts.filterMap Verdict.diagnostic? := by
    rw [List.filterMap_append, List.filterMap_cons_none nothing, List.filterMap_nil, List.append_nil]
  exact ⟨known.ascending, known.names, fun names are diagnostics => by rw [same]; exact known.mem_iff names are diagnostics⟩

/-- An accepted diagnostic goes to the end of the group of its file. -/
theorem accept (known : Groups groups verdicts) (are : ∀ name ∈ names, Path.IsName name) {d : Diagnostic}
    (filePath : d.filePath = Path.ofNames names) :
    Groups (groups.alter Path.before names fun old => old.getD [] ++ [d]) (verdicts ++ [.accepted names d]) := by
  have one : (verdicts ++ [Verdict.accepted names d]).filterMap Verdict.diagnostic? =
      verdicts.filterMap Verdict.diagnostic? ++ [d] := List.filterMap_append
  refine ⟨known.ascending.alter Path.isOrder_before, fun group here => ?_, fun others areToo diagnostics => ?_⟩
  · rcases (SortedTable.mem_alter_iff Path.isOrder_before known.ascending).mp here with ⟨-, old⟩ | rfl
    · exact known.names group old
    · exact are
  · rw [SortedTable.mem_alter_iff Path.isOrder_before known.ascending, Prod.mk.injEq, one, List.filter_append,
      known.lookup are]
    by_cases same : others = names
    · obtain rfl := same
      rw [List.filter_cons_of_pos (by simpa using filePath), List.filter_nil]
      constructor
      · rintro (⟨differs, -⟩ | ⟨-, rfl⟩)
        · exact absurd rfl differs
        · exact ⟨List.concat_ne_nil _ _, rfl⟩
      · rintro ⟨-, rfl⟩
        exact .inr ⟨rfl, rfl⟩
    · have apart : d.filePath ≠ Path.ofNames others := fun sameFile =>
        same (Path.ofNames_injective areToo are (sameFile.symm.trans filePath))
      rw [List.filter_cons_of_neg (by simpa using apart), List.filter_nil, List.append_nil,
        ← known.mem_iff others areToo diagnostics]
      constructor
      · rintro (⟨-, here⟩ | ⟨is, -⟩)
        · exact here
        · exact absurd is same
      · exact fun here => .inl ⟨same, here⟩

end Groups

/-! ### Counters -/

/-- Each verdict is counted once, and the accepted ones fill the groups. -/
structure Accounts (i : Intake) (verdicts : List Verdict) : Prop where
  total : i.stats.recordsTotal = verdicts.length
  conserved : i.stats.recordsTotal = i.stats.accepted + i.stats.rejected
  size : i.stats.accepted = (i.groups.map (·.2.length)).sum
  groups : Groups i.groups verdicts

/-- A group with one more diagnostic counts one more. -/
theorem sum_length_alter (names : List String) (d : Diagnostic)
    (groups : SortedTable (List String) (List Diagnostic)) :
    ((groups.alter Path.before names fun old => old.getD [] ++ [d]).map (·.2.length)).sum =
      (groups.map (·.2.length)).sum + 1 := by
  induction groups with
  | nil => rfl
  | cons first rest ih =>
      unfold SortedTable.alter
      split
      · simp [Nat.add_comm]
      · split
        · simp [ih, Nat.add_assoc]
        · simp [Nat.add_right_comm]

theorem accepted_count (s : IntakeStats) (v : Verdict) :
    (count s v).accepted = s.accepted + if v.diagnostic?.isSome then 1 else 0 := by
  cases v with
  | rejected cause => cases cause <;> rfl
  | _ => rfl

theorem rejected_count (s : IntakeStats) (v : Verdict) :
    (count s v).rejected = s.rejected + if v.diagnostic?.isSome then 0 else 1 := by
  cases v with
  | accepted => rfl
  | rejected cause =>
      change _ = s.rejected + 1
      cases cause <;> (dsimp only [count, IntakeStats.rejected]; omega)
  | _ =>
      change _ = s.rejected + 1
      dsimp only [count, IntakeStats.rejected]
      omega

theorem recordsTotal_count (s : IntakeStats) (v : Verdict) : (count s v).recordsTotal = s.recordsTotal := by
  cases v with
  | rejected cause => cases cause <;> rfl
  | _ => rfl

/-- One more verdict is accounted for. -/
theorem Accounts.record {i : Intake} {verdicts : List Verdict} (known : Accounts i verdicts) {v : Verdict}
    (named : v.NamesFile) : Accounts (i.record v) (verdicts ++ [v]) := by
  have counted : (i.record v).stats.recordsTotal = i.stats.recordsTotal + 1 := recordsTotal_count _ v
  refine ⟨?_, ?_, ?_, ?_⟩
  · rw [counted, known.total, List.length_append, List.length_singleton]
  · have accepted := accepted_count { i.stats with recordsTotal := i.stats.recordsTotal + 1 } v
    have rejected := rejected_count { i.stats with recordsTotal := i.stats.recordsTotal + 1 } v
    have sides : (i.record v).stats.accepted + (i.record v).stats.rejected =
        i.stats.accepted + i.stats.rejected + 1 := by
      unfold Intake.record
      rw [accepted, rejected]
      change i.stats.accepted + _ + (i.stats.rejected + _) = _
      split <;> omega
    rw [counted, known.conserved, sides]
  · unfold Intake.record
    rw [accepted_count]
    change i.stats.accepted + _ = _
    rw [known.size]
    cases v with
    | accepted names d => exact (sum_length_alter names d i.groups).symm
    | _ => rfl
  · cases v with
    | accepted names d =>
        obtain ⟨are, filePath⟩ := named names d rfl
        exact known.groups.accept are filePath
    | _ => exact known.groups.skip rfl

/-- All verdicts are accounted for. -/
theorem accounts_foldl (verdicts : List Verdict) (named : ∀ v ∈ verdicts, v.NamesFile) :
    Accounts (verdicts.foldl Intake.record {}) verdicts := by
  induction verdicts using List.reverseRecOn with
  | nil => exact ⟨rfl, rfl, rfl, .empty⟩
  | append_singleton verdicts v ih =>
      rw [List.foldl_append]
      have known := ih fun v here => named v (List.mem_append_left _ here)
      exact known.record (named v (List.mem_append_right _ (List.mem_singleton_self v)))

end Intake

/-! ### Accepted diagnostics -/

/-- A finding that is made of a record must be fixed, and tells a line and a name. -/
theorem ReportRecord.of_toDiagnostic {r : ReportRecord} {d : Diagnostic} (found : r.toDiagnostic = .ok d) :
    d.severity = .mustFix ∧ 1 ≤ d.line ∧ isIdentifier d.symbolName = true := by
  simp only [toDiagnostic, bind, Except.bind, pure, Except.pure, throw, throwThe, MonadExceptOf.throw] at found
  repeat' split at found
  all_goals try cases found
  next severe _ _ line _ _ _ _ _ named =>
    have ⟨_, positive⟩ := Option.filter_eq_some_iff.mp line
    have ⟨_, isName⟩ := Option.filter_eq_some_iff.mp named
    rw [Bool.and_eq_true, decide_eq_true_eq] at positive
    exact ⟨not_not.mp severe, positive.1, isName⟩

/-- A diagnostic of the file with a path: it must be fixed, tells a line and a name, and the file may be edited. -/
structure IntakeOptions.Accepts (o : IntakeOptions) (isFile : String → Bool) (path : String) (d : Diagnostic) :
    Prop where
  severity : d.severity = .mustFix
  line : 1 ≤ d.line
  symbolName : isIdentifier d.symbolName = true
  filePath : d.filePath = path
  managed : o.managedPath? path = some path
  notExcluded : ∀ pattern ∈ o.exclude, ∃ glob, Glob.ofText pattern = .ok glob ∧ glob.isMatch path = false
  supported : o.supportsExtension path = true
  exists_file : isFile path = true

/-- All patterns have been read. -/
theorem IntakeOptions.ofText_of_excludePatterns {o : IntakeOptions} {patterns : List Glob}
    (read : o.excludePatterns = .ok patterns) :
    ∀ pattern ∈ o.exclude, ∃ glob ∈ patterns, Glob.ofText pattern = .ok glob := by
  unfold excludePatterns at read
  generalize o.exclude = texts at read
  induction texts generalizing patterns with
  | nil => exact fun _ here => absurd here List.not_mem_nil
  | cons text texts ih =>
      rw [List.mapM_cons] at read
      cases first : Glob.ofText text with
      | error e => rw [first] at read; cases read
      | ok glob =>
          rw [first] at read
          simp only [Except.mapError, bind, Except.bind, pure, Except.pure] at read
          split at read
          · cases read
          · next globs rest =>
            cases read
            intro pattern here
            rcases List.mem_cons.mp here with rfl | here
            · exact ⟨glob, List.mem_cons_self, first⟩
            · obtain ⟨other, listed, is⟩ := ih rest pattern here
              exact ⟨other, List.mem_cons_of_mem _ listed, is⟩

namespace Intake

variable {o : IntakeOptions} {isFile : String → Bool} {patterns : List Glob} {r : ReportRecord} {d : Diagnostic}
  {names : List String}

/-- An accepted diagnostic is one of a file that may be edited. -/
theorem of_verdict (read : o.excludePatterns = .ok patterns)
    (accepted : verdict o patterns isFile r = .accepted names d) :
    (∃ path, o.managedNames? path = some names) ∧ o.Accepts isFile (Path.ofNames names) d := by
  unfold verdict at accepted
  split at accepted
  · cases accepted
  · next found =>
    split at accepted
    · cases accepted
    · next managed =>
      simp only [Bool.not_eq_true'] at accepted
      split at accepted
      · cases accepted
      · next notExcluded =>
        split at accepted
        · cases accepted
        · next supported =>
          split at accepted
          · cases accepted
          · next present =>
            cases accepted
            obtain ⟨severity, line, symbolName⟩ := ReportRecord.of_toDiagnostic found
            refine ⟨⟨_, managed⟩, severity, line, symbolName, rfl, ?_, fun pattern listed => ?_,
              by simpa using supported, by simpa using present⟩
            · exact IntakeOptions.managedPath?_ofNames managed
            · obtain ⟨glob, isPattern, is⟩ := IntakeOptions.ofText_of_excludePatterns read pattern listed
              refine ⟨glob, is, Bool.eq_false_iff.mpr fun matched => notExcluded ?_⟩
              exact List.any_eq_true.mpr ⟨glob, isPattern, matched⟩

/-- The diagnostics that are accepted from some records, in the order of the records. -/
def acceptedFrom (o : IntakeOptions) (patterns : List Glob) (isFile : String → Bool)
    (records : List ReportRecord) : List Diagnostic :=
  records.filterMap fun r => (verdict o patterns isFile r).diagnostic?

/-- Each record is counted once, and the accepted diagnostics are there by file, in the order of the records. -/
structure Covers (o : IntakeOptions) (patterns : List Glob) (isFile : String → Bool)
    (records : List ReportRecord) (i : Intake) : Prop where
  total : i.stats.recordsTotal = records.length
  conserved : i.stats.recordsTotal = i.stats.accepted + i.stats.rejected
  size : i.stats.accepted = (i.files.map (·.2.length)).sum
  nodup : (i.files.map (·.1)).Nodup
  /-- The groups are those that are not empty, and hold all that was accepted for their files. -/
  mem_iff : ∀ path diagnostics, (path, diagnostics) ∈ i.files ↔ diagnostics ≠ [] ∧
    diagnostics = (acceptedFrom o patterns isFile records).filter (·.filePath = path)
  accepts : ∀ path diagnostics, (path, diagnostics) ∈ i.files → ∀ d ∈ diagnostics, o.Accepts isFile path d

variable {records : List ReportRecord} {i : Intake}

/-- What is accepted is accepted for a path in the source tree. -/
theorem of_mem_acceptedFrom (read : o.excludePatterns = .ok patterns)
    (here : d ∈ acceptedFrom o patterns isFile records) :
    ∃ path names, o.managedNames? path = some names ∧ o.Accepts isFile (Path.ofNames names) d := by
  obtain ⟨r, -, accepted⟩ := List.mem_filterMap.mp here
  cases v : verdict o patterns isFile r with
  | accepted names diagnostic =>
      rw [v, Verdict.diagnostic?, Option.some.injEq] at accepted
      obtain ⟨⟨path, managed⟩, accepts⟩ := of_verdict read v
      exact ⟨path, names, managed, accepted ▸ accepts⟩
  | _ => simp [v, Verdict.diagnostic?] at accepted

/-- The accounts of an intake of a report. -/
theorem of_ofReport {report : Json} (taken : ofReport o isFile report = .ok i) :
    ∃ records patterns, ReportRecord.ofReport? report = some records ∧ o.excludePatterns = .ok patterns ∧
      Accounts i (records.map (verdict o patterns isFile)) := by
  unfold ofReport at taken
  split at taken
  · next records found =>
    cases read : o.excludePatterns with
    | error e => rw [read] at taken; cases taken
    | ok patterns =>
        rw [read] at taken
        cases taken
        refine ⟨records, patterns, found, rfl, accounts_foldl _ fun v here names d is => ?_⟩
        obtain ⟨r, -, rfl⟩ := List.mem_map.mp here
        obtain ⟨⟨path, managed⟩, accepts⟩ := of_verdict read is
        exact ⟨IntakeOptions.isName_of_managedNames? managed, accepts.filePath⟩
  · cases taken

theorem mem_files_iff {path : String} {diagnostics : List Diagnostic} : (path, diagnostics) ∈ i.files ↔
    ∃ names, (names, diagnostics) ∈ i.groups ∧ Path.ofNames names = path := by
  simp [files]

section

variable (read : o.excludePatterns = .ok patterns) (known : Accounts i (records.map (verdict o patterns isFile)))

include known

/-- The group of some names holds what was accepted for their path. -/
theorem mem_groups_iff (are : ∀ name ∈ names, Path.IsName name) (diagnostics : List Diagnostic) :
    (names, diagnostics) ∈ i.groups ↔ diagnostics ≠ [] ∧
      diagnostics = (acceptedFrom o patterns isFile records).filter (·.filePath = Path.ofNames names) := by
  have fromRecords : (records.map (verdict o patterns isFile)).filterMap Verdict.diagnostic? =
      acceptedFrom o patterns isFile records := List.filterMap_map
  rw [known.groups.mem_iff names are diagnostics, fromRecords]

/-- No two groups are about one path. -/
theorem pairwise_groups : i.groups.Pairwise fun a b => a.1 ≠ b.1 :=
  List.pairwise_map.mp (known.groups.ascending.nodup_keys Path.isOrder_before)

theorem nodup_files : (i.files.map (·.1)).Nodup := by
  refine List.pairwise_map.mpr (List.pairwise_map.mpr ((pairwise_groups known).imp_of_mem ?_))
  exact fun hereA hereB apart same =>
    apart (Path.ofNames_injective (known.groups.names _ hereA) (known.groups.names _ hereB) same)

include read

/-- What stands in a group is accepted for its path, which is one in the source tree. -/
theorem of_mem_groups {diagnostics : List Diagnostic} (here : (names, diagnostics) ∈ i.groups) :
    (∃ path, o.managedNames? path = some names) ∧ ∀ d ∈ diagnostics, o.Accepts isFile (Path.ofNames names) d := by
  have are := known.groups.names _ here
  obtain ⟨nonempty, is⟩ := (mem_groups_iff known are diagnostics).mp here
  have each (d : Diagnostic) (listed : d ∈ diagnostics) :
      (∃ path, o.managedNames? path = some names) ∧ o.Accepts isFile (Path.ofNames names) d := by
    rw [is, List.mem_filter, decide_eq_true_eq] at listed
    obtain ⟨path, others, managed, accepts⟩ := of_mem_acceptedFrom read listed.1
    have samePath := accepts.filePath.symm.trans listed.2
    obtain rfl := Path.ofNames_injective (IntakeOptions.isName_of_managedNames? managed) are samePath
    exact ⟨⟨path, managed⟩, accepts⟩
  obtain ⟨d, listed⟩ := List.exists_mem_of_ne_nil _ nonempty
  exact ⟨(each d listed).1, fun d listed => (each d listed).2⟩

end

/-- Intake neither loses nor invents records. -/
theorem intake_covers_records (o : IntakeOptions) (isFile : String → Bool) (report : Json) (i : Intake)
    (taken : ofReport o isFile report = .ok i) :
    ∃ records patterns, ReportRecord.ofReport? report = some records ∧ o.excludePatterns = .ok patterns ∧
      i.Covers o patterns isFile records := by
  obtain ⟨records, patterns, found, read, known⟩ := of_ofReport taken
  refine ⟨records, patterns, found, read, ?_, known.conserved, ?_, nodup_files known, ?_, ?_⟩
  · rw [known.total, List.length_map]
  · rw [known.size, files, List.map_map]
    rfl
  · intro path diagnostics
    rw [mem_files_iff]
    constructor
    · rintro ⟨names, here, rfl⟩
      exact (mem_groups_iff known (known.groups.names _ here) diagnostics).mp here
    · rintro ⟨nonempty, is⟩
      obtain ⟨d, listed⟩ := List.exists_mem_of_ne_nil _ nonempty
      rw [is, List.mem_filter, decide_eq_true_eq] at listed
      obtain ⟨_, names, managed, accepts⟩ := of_mem_acceptedFrom read listed.1
      obtain rfl := accepts.filePath.symm.trans listed.2
      have are := IntakeOptions.isName_of_managedNames? managed
      exact ⟨names, (mem_groups_iff known are diagnostics).mpr ⟨nonempty, is⟩, rfl⟩
  · intro path diagnostics here
    obtain ⟨names, inGroups, rfl⟩ := mem_files_iff.mp here
    exact (of_mem_groups read known inGroups).2

/-- No two groups are about one place. -/
theorem pairwise_place {report : Json} (taken : ofReport o isFile report = .ok i) :
    i.files.Pairwise fun group other => o.place group.1 ≠ o.place other.1 := by
  obtain ⟨records, patterns, -, read, known⟩ := of_ofReport taken
  refine List.pairwise_map.mpr ((pairwise_groups known).imp_of_mem fun hereA hereB apart same => apart ?_)
  obtain ⟨path, managed⟩ := (of_mem_groups read known hereA).1
  obtain ⟨other, managedToo⟩ := (of_mem_groups read known hereB).1
  exact (IntakeOptions.place_eq_iff (IntakeOptions.managedNames?_ofNames managed)
    (IntakeOptions.managedNames?_ofNames managedToo)).mp same

/-- An entry with two messages for one file, of which one need not be fixed, and a record of a file elsewhere. -/
def mixedReport : Json :=
  .array [
    .object [("filePath", .string "/repo/./src//A.js"), ("messages", .array [
      .object [("ruleId", .string "no-undef"), ("message", .string "'toast' is not defined."), ("line", .nat 1),
        ("column", .nat 1), ("severity", .nat 2)],
      .object [("ruleId", .string "no-undef"), ("message", .string "'cn' is not defined."), ("line", .nat 2),
        ("column", .nat 1), ("severity", .nat 1)]])],
    .object [("file_path", .string "/repo/lib/B.js"), ("rule_kind", .string "unused_binding"),
      ("symbol_name", .string "x"), ("line", .nat 1), ("column", .nat 5), ("severity", .string "error")]]

set_option maxRecDepth 100000 in
/-- A report of which one record is accepted. -/
theorem covers_mixedReport : ∃ i, ofReport { repoRoot := "/repo" } (· == "src/A.js") mixedReport = .ok i ∧
    i.stats.accepted = 1 ∧ ∃ records patterns, ReportRecord.ofReport? mixedReport = some records ∧
      IntakeOptions.excludePatterns { repoRoot := "/repo" } = .ok patterns ∧
      i.Covers { repoRoot := "/repo" } patterns (· == "src/A.js") records := by
  cases taken : ofReport { repoRoot := "/repo" } (· == "src/A.js") mixedReport with
  | error e =>
      have fails : (ofReport { repoRoot := "/repo" } (· == "src/A.js") mixedReport).isOk = true := by decide +kernel
      rw [taken] at fails
      cases fails
  | ok i =>
      have one : (ofReport { repoRoot := "/repo" } (· == "src/A.js") mixedReport).toOption.map
          (·.stats.accepted) = some 1 := by decide +kernel
      rw [taken] at one
      exact ⟨i, rfl, Option.some.inj one, intake_covers_records _ _ _ i taken⟩

end Intake

/-! ### One form for each path -/

/-- A path of the source tree is kept in one form, by which it is told from all others, and which leads to no
place outside the tree. No two groups of an intake are about one place. -/
theorem managed_paths_are_canonical (o : IntakeOptions) :
    (∀ path managed, o.managedPath? path = some managed →
      o.Confines managed ∧ o.managedPath? managed = some managed ∧ o.place managed = o.place path) ∧
    (∀ path other managed otherManaged, o.managedPath? path = some managed →
      o.managedPath? other = some otherManaged → (managed = otherManaged ↔ o.place path = o.place other)) ∧
    (∀ path other, Relation.EqvGen Path.Respells path other → o.managedPath? path = o.managedPath? other) ∧
    ∀ isFile report i, Intake.ofReport o isFile report = .ok i →
      i.files.Pairwise fun group other => o.place group.1 ≠ o.place other.1 := by
  refine ⟨fun path managed is => ?_, fun path other managed otherManaged is isToo => ?_,
    fun path other respells => ?_, fun isFile report i taken => ?_⟩
  · obtain ⟨names, found, rfl⟩ := IntakeOptions.exists_managedNames? is
    exact ⟨IntakeOptions.confines_of_managedNames? found, IntakeOptions.managedPath?_ofNames found,
      IntakeOptions.place_ofNames found⟩
  · obtain ⟨names, found, rfl⟩ := IntakeOptions.exists_managedNames? is
    obtain ⟨others, foundToo, rfl⟩ := IntakeOptions.exists_managedNames? isToo
    rw [IntakeOptions.place_eq_iff found foundToo]
    exact ⟨Path.ofNames_injective (IntakeOptions.isName_of_managedNames? found)
      (IntakeOptions.isName_of_managedNames? foundToo), congrArg Path.ofNames⟩
  · induction respells with
    | rel path other respells => exact IntakeOptions.managedPath?_of_respells respells
    | refl path => rfl
    | symm path other _ ih => exact ih.symm
    | trans path middle other _ _ ih ih' => exact ih.trans ih'
  · exact Intake.pairwise_place taken

set_option maxRecDepth 100000 in
/-- Two texts for one file, of which one is absolute and holds slashes and dots to spare. -/
theorem managed_path_of_odd_spelling : ∃ o : IntakeOptions,
    o.managedPath? "/repo/./src//A.js/" = some "src/A.js" ∧ o.managedPath? "./src/A.js" = some "src/A.js" ∧
      o.Confines "src/A.js" ∧ o.place "/repo/./src//A.js/" = o.place "./src/A.js" := by
  have absolute : IntakeOptions.managedPath? { repoRoot := "/repo" } "/repo/./src//A.js/" = some "src/A.js" := by
    decide +kernel
  have relative : IntakeOptions.managedPath? { repoRoot := "/repo" } "./src/A.js" = some "src/A.js" := by
    decide +kernel
  have ⟨confined, same, _⟩ := managed_paths_are_canonical { repoRoot := "/repo" }
  exact ⟨_, absolute, relative, (confined _ _ relative).1, (same _ _ _ _ absolute relative).mp rfl⟩

end BindingRepair
