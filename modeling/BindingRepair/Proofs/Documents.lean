/-
# Documents are restored

Plans, previews and reports are read as what was written, whichever of their optional parts they have and
however the fields of objects are ordered. So no two documents are written alike.
-/

import BindingRepair.Proofs.Decoding
import BindingRepair.Report
import Mathlib.Data.List.Induction
import Mathlib.Data.String.Basic

namespace BindingRepair

open Json Text

/-! ### Fixes -/

/-- The line and the column are numbers of 32 bits. -/
structure Text.Position.Fits (p : Position) : Prop where
  line : p.line < UInt32.size
  column : p.column < UInt32.size

theorem Text.Position.Fits.decodes {p : Position} (fits : p.Fits) : DecodesTo Position.ofJson? p.toJson p := by
  intro j same
  have line := (DecodesTo.word fits.line).required same "line" rfl
  have column := (DecodesTo.word fits.column).required same "column" rfl
  simp [Position.ofJson?, same.document?, line, column]

namespace NameSet

/-- A name behind all names of a set goes to its end. -/
theorem insert_eq_append {names : NameSet} {name : String} (behind : ∀ other ∈ names, other < name) :
    insert name names = names ++ [name] := by
  induction names with
  | nil => rfl
  | cons n ns ih =>
      have before := behind n List.mem_cons_self
      rw [insert, if_neg (ne_of_gt before), if_neg (lt_asymm before),
        ih fun other here => behind other (List.mem_cons_of_mem _ here)]
      rfl

/-- Names that are in ascending order are the set that they make. -/
theorem ofNames_eq_self {names : NameSet} (ascending : names.Pairwise (· < ·)) : ofNames names = names := by
  induction names using List.reverseRecOn with
  | nil => rfl
  | append_singleton names name ih =>
      rw [List.pairwise_append] at ascending
      obtain ⟨earlier, -, behind⟩ := ascending
      have made : names.foldl (fun set name => insert name set) [] = names := ih earlier
      rw [ofNames, List.foldl_append, List.foldl_cons, List.foldl_nil, made]
      exact insert_eq_append fun other here => behind other here name (List.mem_singleton_self name)

end NameSet

/-- The place of a rename fits, and the names of an import are a set. -/
def Fix.Fits : Fix → Prop
  | .rename position _ => position.Fits
  | .importMerge _ names _ => names.Pairwise (· < ·)
  | .pairedDeclaration .. | .singleDeclaration _ => True

/-- The fields of a fix are found among those of a planned fix. -/
theorem Fix.Fits.decodes {fix : Fix} (fits : fix.Fits) {id : String} :
    DecodesTo (ofFields? fix.label) (.object (("id", .string id) :: fix.fields)) fix := by
  intro j same
  cases fix with
  | rename position name =>
      have position := Position.Fits.decodes fits |>.required same "at" rfl
      have name := (DecodesTo.string name).required same "name" rfl
      simp [ofFields?, label, same.document?, position, name]
  | importMerge module names onlyIfImported =>
      have module := (DecodesTo.string module).required same "module" rfl
      have names := (DecodesTo.strings names).required same "names" rfl
      have onlyIfImported := (DecodesTo.bool onlyIfImported).withDefault same "only_if_imported" false rfl
      simp [ofFields?, label, same.document?, module, names, onlyIfImported, NameSet.ofNames_eq_self fits]
  | pairedDeclaration value setter =>
      have value := (DecodesTo.string value).required same "value_name" rfl
      have setter := (DecodesTo.string setter).required same "setter_name" rfl
      simp [ofFields?, label, same.document?, value, setter]
  | singleDeclaration name =>
      have name := (DecodesTo.string name).required same "name" rfl
      simp [ofFields?, label, same.document?, name]

theorem PlannedFix.decodes {p : PlannedFix} (fits : p.fix.Fits) : DecodesTo ofJson? p.toJson p := by
  intro j same
  have id := (DecodesTo.string p.id).required same "id" rfl
  have kind : DecodesTo Fix.labelOf? (.string p.fix.label) p.fix.label := by
    rintro j ⟨⟩
    rfl
  have kind := kind.required same "type" rfl
  simp [ofJson?, id, kind, fits.decodes j same]

/-- All fixes fit, and the count is a number of 64 bits. -/
structure FixPlan.Fits (plan : FixPlan) : Prop where
  fixes : ∀ planned ∈ plan.fixes, planned.fix.Fits
  exempt : plan.exempt < UInt64.size

theorem FixPlan.Fits.decodes {plan : FixPlan} (fits : plan.Fits) : DecodesTo ofJson? plan.toJson plan := by
  intro j same
  have filePath := (DecodesTo.string plan.filePath).required same "file_path" rfl
  have fixes := (DecodesTo.listOf fun planned here => PlannedFix.decodes (fits.fixes planned here)).withDefault
    same "fixes" [] rfl
  have exempt := (DecodesTo.natural fits.exempt).withDefault same "exempt" 0 rfl
  simp [ofJson?, same.document?, filePath, fixes, exempt]

/-! ### Parts of reports -/

theorem ToolInfo.decodes (t : ToolInfo) : DecodesTo ofJson? t.toJson t := by
  intro j same
  have field (name : String) : t.toJson.field? name = _ := field?_ofFields (by simp) name
  have name := (DecodesTo.string t.name).required same "name" (field _)
  have version := same.optional_string (s := t.version) (field "version")
  simp [ofJson?, same.document?, name, version]

/-- All counters are numbers of 64 bits. -/
structure IntakeStats.Fits (s : IntakeStats) : Prop where
  recordsTotal : s.recordsTotal < UInt64.size
  accepted : s.accepted < UInt64.size
  malformed : s.malformed < UInt64.size
  ignoredRule : s.ignoredRule < UInt64.size
  belowSeverity : s.belowSeverity < UInt64.size
  outsideTree : s.outsideTree < UInt64.size
  missingFile : s.missingFile < UInt64.size
  unsupportedExtension : s.unsupportedExtension < UInt64.size
  excluded : s.excluded < UInt64.size

theorem IntakeStats.Fits.decodes {s : IntakeStats} (fits : s.Fits) : DecodesTo ofJson? s.toJson s := by
  intro j same
  have recordsTotal := same.counter fits.recordsTotal "records_total" rfl
  have accepted := same.counter fits.accepted "accepted" rfl
  have malformed := same.counter fits.malformed "malformed" rfl
  have ignoredRule := same.counter fits.ignoredRule "ignored_rule" rfl
  have belowSeverity := same.counter fits.belowSeverity "below_severity" rfl
  have outsideTree := same.counter fits.outsideTree "outside_tree" rfl
  have missingFile := same.counter fits.missingFile "missing_file" rfl
  have unsupportedExtension := same.counter fits.unsupportedExtension "unsupported_extension" rfl
  have excluded := (DecodesTo.natural fits.excluded).withDefault same "excluded" 0 rfl
  simp [ofJson?, same.document?, recordsTotal, accepted, malformed, ignoredRule, belowSeverity, outsideTree,
    missingFile, unsupportedExtension, excluded]

/-- All counters are numbers of 64 bits. -/
structure RunSummary.Fits (s : RunSummary) : Prop where
  touchedFiles : s.touchedFiles < UInt64.size
  changedFiles : s.changedFiles < UInt64.size
  unchangedFiles : s.unchangedFiles < UInt64.size
  parseFailures : s.parseFailures < UInt64.size
  ioFailures : s.ioFailures < UInt64.size
  panicked : s.panicked < UInt64.size
  fixesApplied : s.fixesApplied < UInt64.size
  fixesDropped : s.fixesDropped < UInt64.size

theorem RunSummary.Fits.decodes {s : RunSummary} (fits : s.Fits) : DecodesTo ofJson? s.toJson s := by
  intro j same
  have touchedFiles := same.counter fits.touchedFiles "touched_files" rfl
  have changedFiles := same.counter fits.changedFiles "changed_files" rfl
  have unchangedFiles := same.counter fits.unchangedFiles "unchanged_files" rfl
  have parseFailures := same.counter fits.parseFailures "parse_failures" rfl
  have ioFailures := same.counter fits.ioFailures "io_failures" rfl
  have panicked := (DecodesTo.natural fits.panicked).withDefault same "panicked" 0 rfl
  have fixesApplied := same.counter fits.fixesApplied "fixes_applied" rfl
  have fixesDropped := same.counter fits.fixesDropped "fixes_dropped" rfl
  simp [ofJson?, same.document?, touchedFiles, changedFiles, unchangedFiles, parseFailures, ioFailures, panicked,
    fixesApplied, fixesDropped]

theorem FixOutcome.decodes (o : FixOutcome) : DecodesTo ofJson? o.toJson o := by
  intro j same
  have field (name : String) : o.toJson.field? name = _ := field?_ofFields (by simp) name
  have fixId := (DecodesTo.string o.fixId).required same "fix_id" (field _)
  have kind := (DecodesTo.string o.kind).required same "kind" (field _)
  have known : DecodesTo (Json.labelled [.applied, .dropped] FixStatus.label) (.string o.status.label) o.status := by
    apply DecodesTo.labelled
    · cases o.status <;> simp
    · cases o.status <;> simp [FixStatus.label]
  have status := known.required same "status" (field _)
  -- A list without names is not written, and is what is read where there is none.
  have names : j.withDefault "names" [] strings? = some o.names := by
    cases written : o.names with
    | nil =>
        have missing := field "names"
        rw [written] at missing
        exact same.withDefault_none missing
    | cons name names =>
        have found := field "names"
        rw [written] at found
        exact (DecodesTo.strings (name :: names)).withDefault same "names" [] found
  have reason := same.optional_string (s := o.reason) (field "reason")
  simp [ofJson?, same.document?, fixId, kind, status, names, reason]

theorem FileReport.decodes (r : FileReport) : DecodesTo ofJson? r.toJson r := by
  intro j same
  have field (name : String) : r.toJson.field? name = _ := field?_ofFields (by simp) name
  have path := (DecodesTo.string r.path).required same "path" (field _)
  have known : DecodesTo (Json.labelled FileStatus.all FileStatus.label) (.string r.status.label) r.status := by
    apply DecodesTo.labelled
    · cases r.status <;> simp [FileStatus.all]
    · cases r.status <;> simp [FileStatus.all, FileStatus.label]
  have status := known.required same "status" (field _)
  have message := same.optional_string (s := r.message) (field "message")
  have sha256Before := same.optional_string (s := r.sha256Before) (field "sha256_before")
  have sha256After := same.optional_string (s := r.sha256After) (field "sha256_after")
  have backupPath := same.optional_string (s := r.backupPath) (field "backup_path")
  have fixes := (DecodesTo.listOf fun o (_ : o ∈ r.fixes) => FixOutcome.decodes o).withDefault
    same "fixes" [] (field _)
  simp [ofJson?, same.document?, path, status, message, sha256Before, sha256After, backupPath, fixes]

/-! ### Documents -/

/-- The counters fit, and no times are told. -/
structure RunReport.Fits (r : RunReport) : Prop where
  startedAt : r.startedAt = none
  endedAt : r.endedAt = none
  intake : r.intake.Fits
  summary : r.summary.Fits

theorem RunReport.Fits.decodes {r : RunReport} (fits : r.Fits) : DecodesTo ofJson? r.toJson r := by
  intro j same
  have field (name : String) : r.toJson.field? name = _ := field?_ofFields (by simp) name
  have schema := (DecodesTo.string r.schema).required same "schema" (field _)
  have tool := (ToolInfo.decodes r.tool).required same "tool" (field _)
  have startedAt : j.optional "started_at" instant? = some r.startedAt := by
    have missing := field "started_at"
    rw [fits.startedAt] at missing ⊢
    exact same.optional_none missing
  have endedAt : j.optional "ended_at" instant? = some r.endedAt := by
    have missing := field "ended_at"
    rw [fits.endedAt] at missing ⊢
    exact same.optional_none missing
  have dryRun := (DecodesTo.bool r.dryRun).required same "dry_run" (field _)
  have intake := fits.intake.decodes.required same "intake" (field _)
  have summary := fits.summary.decodes.required same "summary" (field _)
  have files := (DecodesTo.listOf fun file (_ : file ∈ r.files) => FileReport.decodes file).withDefault
    same "files" [] (field _)
  simp [ofJson?, same.document?, schema, tool, startedAt, endedAt, dryRun, intake, summary, files]

/-- The counters fit, and so do all plans. -/
structure PlanDocument.Fits (d : PlanDocument) : Prop where
  intake : d.intake.Fits
  plans : ∀ plan ∈ d.plans, plan.Fits

theorem PlanDocument.Fits.decodes {d : PlanDocument} (fits : d.Fits) : DecodesTo ofJson? d.toJson d := by
  intro j same
  have schema := (DecodesTo.string d.schema).required same "schema" rfl
  have tool := (ToolInfo.decodes d.tool).required same "tool" rfl
  have intake := fits.intake.decodes.required same "intake" rfl
  have plans := (DecodesTo.listOf fun plan here => (fits.plans plan here).decodes).withDefault
    same "plans" [] rfl
  simp [ofJson?, same.document?, schema, tool, intake, plans]

/-- What is written for review: the plan of a file, the preview of all plans, or the report of a run. -/
inductive Document
  | plan (plan : FixPlan)
  | preview (preview : PlanDocument)
  | report (report : RunReport)

namespace Document

def toJson : Document → Json
  | plan p => p.toJson
  | preview d => d.toJson
  | report r => r.toJson

/-- All numbers have the width that documents have room for, sets of names are in order, and no times are
told. -/
def Fits : Document → Prop
  | plan p => p.Fits
  | preview d => d.Fits
  | report r => r.Fits

/-- Whether reading a value as a document of the same kind gives the document. -/
def IsReadFrom (j : Json) : Document → Prop
  | plan p => FixPlan.ofJson? j = some p
  | preview d => PlanDocument.ofJson? j = some d
  | report r => RunReport.ofJson? j = some r

/-- The name of a field that only documents of the kind have. -/
def mark : Document → String
  | plan _ => "file_path"
  | preview _ => "plans"
  | report _ => "dry_run"

variable {d other : Document} {j : Json}

theorem Fits.isReadFrom (fits : d.Fits) (same : j.Same d.toJson) : d.IsReadFrom j := by
  cases d with
  | plan p => exact FixPlan.Fits.decodes fits j same
  | preview d => exact PlanDocument.Fits.decodes fits j same
  | report r => exact RunReport.Fits.decodes fits j same

theorem exists_marked (d : Document) : ∃ value, d.toJson.field? d.mark = some value := by
  cases d with
  | plan p => exact ⟨_, rfl⟩
  | preview d => exact ⟨_, rfl⟩
  | report r => exact ⟨_, field?_ofFields (by simp) "dry_run"⟩

/-- A document that has the mark of another is of its kind, so what is read as both is one document. -/
theorem eq_of_isReadFrom {value : Json} (marked : other.toJson.field? d.mark = some value)
    (readOther : other.IsReadFrom j) (read : d.IsReadFrom j) : other = d := by
  cases other with
  | plan p =>
      cases d with
      | plan q => exact congrArg plan (Option.some.inj (readOther.symm.trans read))
      | _ => cases marked
  | preview p =>
      cases d with
      | preview q => exact congrArg preview (Option.some.inj (readOther.symm.trans read))
      | _ => cases marked
  | report r =>
      have field (name : String) : r.toJson.field? name = _ := field?_ofFields (by simp) name
      change r.toJson.field? d.mark = some value at marked
      rw [field] at marked
      cases d with
      | report q => exact congrArg report (Option.some.inj (readOther.symm.trans read))
      | _ => cases marked

/-- A document is read from what it is written as, however the fields of objects are ordered, and no other
document is written as the same value. -/
theorem documents_are_restored (fits : d.Fits) :
    d.IsReadFrom d.toJson ∧ (∀ j : Json, j.Same d.toJson → d.IsReadFrom j) ∧
      ∀ other : Document, other.Fits → other.toJson.Same d.toJson → other = d := by
  refine ⟨fits.isReadFrom (.refl _), fun j same => fits.isReadFrom same, ?_⟩
  intro other fitsOther same
  obtain ⟨value, marked⟩ := exists_marked d
  obtain ⟨found, here, -⟩ := same.exists_field? marked
  exact eq_of_isReadFrom here (fitsOther.isReadFrom (.refl _)) (fits.isReadFrom same)

/-- A plan with fixes of all kinds, at the greatest place that there is, and with the greatest count. -/
def planOfAllKinds (onlyIfImported : Bool) : FixPlan where
  filePath := "src/A.js"
  fixes := [
    ⟨"a", .rename ⟨4294967295, 4294967295⟩ "x"⟩,
    ⟨"b", .importMerge "react" ["useEffect", "useState"] onlyIfImported⟩,
    ⟨"c", .pairedDeclaration "count" "setCount"⟩,
    ⟨"d", .singleDeclaration "y"⟩]
  exempt := 18446744073709551615

theorem fits_planOfAllKinds (onlyIfImported : Bool) : (planOfAllKinds onlyIfImported).Fits := by
  constructor
  · simp only [planOfAllKinds, List.forall_mem_cons, Fix.Fits]
    exact ⟨⟨by decide, by decide⟩, by decide, trivial, trivial, List.forall_mem_nil _⟩
  · change 18446744073709551615 < UInt64.size
    decide

/-- Two plans with a fix of each kind that differ in one flag: the first is read from what it is written as,
the second is written as another value. -/
theorem planOfAllKinds_is_restored : (planOfAllKinds true).Fits ∧ (planOfAllKinds false).Fits ∧
    FixPlan.ofJson? (planOfAllKinds true).toJson = some (planOfAllKinds true) ∧
    ¬ (planOfAllKinds false).toJson.Same (planOfAllKinds true).toJson := by
  have restored := documents_are_restored (d := .plan (planOfAllKinds true)) (fits_planOfAllKinds true)
  refine ⟨fits_planOfAllKinds true, fits_planOfAllKinds false, restored.1, fun same => ?_⟩
  have equal := restored.2.2 (.plan (planOfAllKinds false)) (fits_planOfAllKinds false) same
  simp [planOfAllKinds] at equal

end Document

end BindingRepair
