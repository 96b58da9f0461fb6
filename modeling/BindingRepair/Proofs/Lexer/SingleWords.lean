/-
# Identifiers are single words

The names that are taken in with a report are the texts that are read as one identifier without an escape. A mark in
front of such a name and a number behind it leave it one, so the names that fixes write are read as they were meant.
-/

import BindingRepair.Proofs.Fixes
import BindingRepair.Proofs.IntakeGroups
import BindingRepair.Proofs.Lexer.Tiling
import BindingRepair.Proofs.SuffixSearch

namespace BindingRepair

open Text Script

/-! ### Forms of identifiers -/

variable {name : String}

theorem isIdentifierPart_of_isDigit {c : Char} (digit : c.isDigit = true) : isIdentifierPart c = true := by
  rw [← continuesName_eq_isIdentifierPart, continuesName, digit]
  simp

/-- An identifier goes on with any characters of identifiers. -/
theorem isIdentifier_of_append (identifier : isIdentifier name = true) {longer : String} {more : List Char}
    (chars : longer.toList = name.toList ++ more) (parts : ∀ c ∈ more, isIdentifierPart c = true) :
    isIdentifier longer = true := by
  obtain ⟨c, cs, chars', starts, rest⟩ := isIdentifier_iff.mp identifier
  rw [chars', List.cons_append] at chars
  exact isIdentifier_iff.mpr ⟨c, cs ++ more, chars, starts, List.forall_mem_append.mpr ⟨rest, parts⟩⟩

/-- What may be put in front of names: nothing, or an identifier such as an underscore. -/
def IsMark (mark : String) : Prop :=
  mark = "" ∨ isIdentifier mark = true

theorem IsMark.isIdentifier_append {mark : String} (isMark : IsMark mark) (identifier : isIdentifier name = true) :
    isIdentifier (mark ++ name) = true := by
  rcases isMark with rfl | isMark
  · rwa [String.empty_append]
  · exact isIdentifier_of_append isMark String.toList_append (isIdentifierPart_of_mem identifier)

theorem isIdentifier_numbered (identifier : isIdentifier name = true) (n : Nat) :
    isIdentifier (numbered name n) = true := by
  refine isIdentifier_of_append identifier (toList_numbered name n) (List.forall_mem_cons.mpr ⟨by decide, ?_⟩)
  exact fun c here => isIdentifierPart_of_isDigit (Nat.isDigit_of_mem_toDigits (by decide) (by decide) here)

/-- Every form of an identifier is one. -/
theorem isIdentifier_form (identifier : isIdentifier name = true) (n : Nat) : isIdentifier (form name n) = true := by
  cases n with
  | zero => exact identifier
  | succ n => exact isIdentifier_numbered identifier (n + 1)

/-! ### Single words -/

namespace Script

/-- The text is read as one identifier, without an escape and to its end. -/
structure IsSingleWord (text : List Char) : Prop where
  kind : (tokenAfter text 0).kind = .identifier
  plain : (tokenAfter text 0).escaped = false
  span : (tokenAfter text 0).span = ⟨0, byteLength text⟩

/-- Behind a gap and in front of what does not go on with it, the name is read as one identifier. -/
def StandsAsWord (name : String) : Prop :=
  ∀ (gap rest : List Char) (offset : Nat), (∀ c ∈ gap, Unicode.isBlank c = true) → endsIdentifier rest = true →
    Token.read ⟨offset, gap ++ (name.toList ++ rest)⟩ =
      Token.written .identifier (gap.any isLineTerminator) (offset + byteLength gap) name.toList rest

theorem standsAsWord_of_isIdentifier (identifier : isIdentifier name = true) : StandsAsWord name :=
  fun _ _ offset blank ends => Token.read_identifier blank offset identifier ends

theorem StandsAsWord.isSingleWord (stands : StandsAsWord name) : IsSingleWord name.toList := by
  have read := stands [] [] 0 (fun _ none => absurd none List.not_mem_nil) rfl
  rw [List.nil_append, List.append_nil] at read
  have token : tokenAfter name.toList 0 = Token.written .identifier false 0 name.toList [] := by
    rw [tokenAfter, standAfter, Cursor.start, read]
    rfl
  have stop : (Token.written .identifier false 0 name.toList []).span = ⟨0, byteLength name.toList⟩ :=
    congrArg (Span.mk 0) (Nat.zero_add _)
  exact ⟨congrArg Token.kind token, congrArg Token.escaped token, (congrArg Token.span token).trans stop⟩

/-- The characters from one that opens a name on, all of them without an escape, are an identifier. -/
theorem isIdentifier_textTo {place behind last : Cursor}
    (opens : pastIdentifierChar? true place = some (behind, false)) (later : behind.Through isIdentifierPart last) :
    isIdentifier (place.textTo last) = true := by
  obtain ⟨word, rest, offset, are⟩ := through_pastIdentifierChar? opens
  obtain ⟨word', rest', offset', are'⟩ := later
  have chars : (place.textTo last).toList = word ++ word' := by
    rw [Cursor.textTo, String.toList_ofList]
    exact Cursor.charsTo_of_append (by rw [rest, rest', List.append_assoc])
      (by rw [offset', offset, byteLength_append, Nat.add_assoc])
  cases word with
  | nil =>
      have shorter := length_pastIdentifierChar?_lt opens
      rw [rest] at shorter
      exact absurd shorter (Nat.lt_irrefl _)
  | cons c cs =>
      have starts : isIdentifierStart c = true :=
        (opensName_eq_isIdentifierStart c).symm.trans (are c List.mem_cons_self)
      have parts : ∀ d ∈ cs, isIdentifierPart d = true :=
        fun d here => isIdentifierPart_of_mayStand d (are d (List.mem_cons_of_mem c here))
      exact isIdentifier_iff.mpr ⟨c, cs ++ word', chars, starts, List.forall_mem_append.mpr ⟨parts, are'⟩⟩

/-- An identifier that is read without an escape is one. -/
theorem Token.isIdentifier_text {newline : Bool} {place : Cursor}
    (identifier : (Token.readAt newline place).kind = .identifier)
    (plain : (Token.readAt newline place).escaped = false) : isIdentifier (Token.readAt newline place).text = true := by
  cases here : place.rest with
  | nil =>
      have ends := (kind_readAt_eq_endOfText_iff newline place).mpr here
      rw [identifier] at ends
      cases ends
  | cons c cs =>
      cases opens : opensName c || c == '\\' with
      | false => exact absurd identifier (kind_readAt_ne newline here opens).1
      | true =>
          unfold readAt at identifier plain ⊢
          rw [here] at identifier plain ⊢
          dsimp only at identifier plain ⊢
          rw [if_pos opens] at identifier plain ⊢
          cases found : pastIdentifierChar? true place with
          | none =>
              rw [found] at identifier
              cases identifier
          | some behind =>
              rw [found] at plain
              obtain ⟨unmarked, later⟩ := through_skipIdentifier plain
              exact isIdentifier_textTo (by rw [found, ← unmarked]) later

/-- What is read as a single word is an identifier. -/
theorem IsSingleWord.isIdentifier {text : List Char} (single : IsSingleWord text) :
    isIdentifier (String.ofList text) = true := by
  have span := single.span
  have first : (tokenAfter text 0).first.offset = 0 := congrArg Span.start span
  have last : (tokenAfter text 0).last.offset = byteLength text := congrArg Span.stop span
  have covers := covers_tokenAfter text 0
  -- The token covers the slice between its ends, which is the whole text.
  have chars := (reaches_tokenAfter text 0).slice_eq covers.fills.reaches
  have whole := slice_append [] text []
  rw [List.nil_append, List.append_nil, byteLength, Nat.zero_add] at whole
  rw [first, last, whole] at chars
  have spelled : (tokenAfter text 0).text = String.ofList text := by rw [covers.text, Cursor.textTo, ← chars]
  rw [← spelled]
  exact Token.isIdentifier_text single.kind single.plain

end Script

/-! ### Names that are taken in -/

/-- A name that passes the intake is an identifier. -/
theorem Intake.isIdentifier_of_mem_files {o : IntakeOptions} {isFile : String → Bool} {report : Json} {i : Intake}
    (taken : ofReport o isFile report = .ok i) {path : String} {diagnostics : List Diagnostic}
    (here : (path, diagnostics) ∈ i.files) {d : Diagnostic} (listed : d ∈ diagnostics) :
    isIdentifier d.symbolName = true := by
  obtain ⟨records, patterns, -, read, known⟩ := of_ofReport taken
  obtain ⟨names, inGroups, rfl⟩ := mem_files_iff.mp here
  exact ((of_mem_groups read known inGroups).2 d listed).symbolName

/-! ### Names that are written -/

/-- The names of a fix that stand in a report. -/
def Fix.reported : Fix → List String
  | .rename _ name | .singleDeclaration name | .pairedDeclaration _ name => [name]
  | .importMerge _ names _ => names

namespace Progress

variable {o : RepairOptions} {p next : Progress} {written : List String}

/-- A free name is a form of the one that is wanted. -/
theorem isIdentifier_of_freshName? {t : Tree} {s : ScopeId} {use : NameUse} {globals : NameSet} {attempts : Nat}
    {fresh : String} (identifier : isIdentifier name = true)
    (found : t.freshName? s use globals attempts name = some fresh) : isIdentifier fresh = true := by
  obtain ⟨n, -, rfl, -, -⟩ := Tree.freshName?_eq_some_iff.mp found
  exact isIdentifier_form identifier n

theorem isIdentifier_of_freshName {s : ScopeId} {use : NameUse} {fresh : String}
    (identifier : isIdentifier name = true) (found : p.freshName o s use name = .ok fresh) :
    isIdentifier fresh = true := by
  unfold freshName at found
  split at found
  · rename_i is
    cases found
    exact isIdentifier_of_freshName? identifier is
  · cases found

/-- A value that is no identifier is not declared. -/
theorem isIdentifier_of_declarePair {value setter : String} (identifier : isIdentifier setter = true)
    (done : p.declarePair o value setter = .ok (written, next)) : ∀ name ∈ written, isIdentifier name = true := by
  unfold declarePair at done
  dsimp only at done
  split at done
  · cases done
  · rename_i valid
    obtain ⟨⟨component, body⟩, -, done⟩ := of_bind_eq_ok done
    dsimp only at done
    split at done
    · cases done
    · obtain ⟨freshValue, valueOk, done⟩ := of_bind_eq_ok done
      obtain ⟨freshSetter, setterOk, done⟩ := of_bind_eq_ok done
      split at done
      · cases done
      · obtain ⟨_, -, done⟩ := of_bind_eq_ok done
        cases done
        have first := isIdentifier_of_freshName (by simpa using valid) valueOk
        have second := isIdentifier_of_freshName identifier setterOk
        exact List.forall_mem_cons.mpr ⟨first, List.forall_mem_singleton.mpr second⟩

theorem isIdentifier_of_declareSingle {wanted : String} (identifier : isIdentifier wanted = true)
    (done : p.declareSingle o wanted = .ok (written, next)) : ∀ name ∈ written, isIdentifier name = true := by
  unfold declareSingle at done
  obtain ⟨⟨component, body⟩, -, done⟩ := of_bind_eq_ok done
  dsimp only at done
  split at done
  · cases done
  · obtain ⟨fresh, freshOk, done⟩ := of_bind_eq_ok done
    obtain ⟨_, -, done⟩ := of_bind_eq_ok done
    cases done
    exact List.forall_mem_singleton.mpr (isIdentifier_of_freshName identifier freshOk)

/-- Fixes whose names are identifiers write identifiers. -/
theorem isIdentifier_of_apply {fix : Fix} (isMark : IsMark o.reservedPrefix)
    (reported : ∀ name ∈ fix.reported, isIdentifier name = true) (done : p.apply o fix = .ok (written, next)) :
    ∀ name ∈ written, isIdentifier name = true := by
  cases fix with
  | rename position old =>
      obtain ⟨_, _, fresh, -, -, -, -, -, rfl, found, -, -⟩ := rename_ok done
      have marked := isMark.isIdentifier_append (reported old List.mem_cons_self)
      exact List.forall_mem_singleton.mpr (isIdentifier_of_freshName? marked found)
  | importMerge module names onlyIfImported =>
      rw [(mergeImport_ok done).1]
      exact fun name here => reported name (List.mem_of_mem_filter here)
  | pairedDeclaration value setter => exact isIdentifier_of_declarePair (reported setter List.mem_cons_self) done
  | singleDeclaration wanted => exact isIdentifier_of_declareSingle (reported wanted List.mem_cons_self) done

end Progress

/-- Identifiers are the texts that are read as single words. Every name that passes the intake is one, whatever mark
stands in front of it and number behind it, and so is every name that a fix writes for it. -/
theorem identifiers_are_single_words :
    (∀ name : String, isIdentifier name = true ↔ IsSingleWord name.toList) ∧
      (∀ (o : IntakeOptions) (isFile : String → Bool) (report : Json) (i : Intake),
        Intake.ofReport o isFile report = .ok i → ∀ path diagnostics, (path, diagnostics) ∈ i.files →
          ∀ d ∈ diagnostics, ∀ mark, IsMark mark → ∀ n, StandsAsWord (form (mark ++ d.symbolName) n)) ∧
      ∀ (o : RepairOptions) (p next : Progress) (fix : Fix) (written : List String), IsMark o.reservedPrefix →
        (∀ name ∈ fix.reported, isIdentifier name = true) → p.apply o fix = .ok (written, next) →
          ∀ name ∈ written, StandsAsWord name := by
  refine ⟨fun name => ⟨fun identifier => ?_, fun single => ?_⟩, ?_, ?_⟩
  · exact (standsAsWord_of_isIdentifier identifier).isSingleWord
  · have identifier := single.isIdentifier
    rwa [String.ofList_toList] at identifier
  · intro o isFile report i taken path diagnostics here d listed mark isMark n
    have identifier := Intake.isIdentifier_of_mem_files taken here listed
    exact standsAsWord_of_isIdentifier (isIdentifier_form (isMark.isIdentifier_append identifier) n)
  · intro o p next fix written isMark reported done name here
    exact standsAsWord_of_isIdentifier (Progress.isIdentifier_of_apply isMark reported done name here)

set_option maxRecDepth 100000 in
/-- A name that a report holds, with a mark and a number, and one that a rename writes. -/
theorem single_words_of_mixedReport :
    (∃ i, Intake.ofReport { repoRoot := "/repo" } (· == "src/A.js") Intake.mixedReport = .ok i ∧
      (∃ path diagnostics, (path, diagnostics) ∈ i.files ∧ ∃ d ∈ diagnostics, d.symbolName = "toast") ∧
        StandsAsWord "_toast_1") ∧
      ∃ t next, parse "let x = 1;" .javascript = .ok t ∧
        Progress.apply { tree := t } {} (.rename ⟨1, 4⟩ "x") = .ok (["_x"], next) ∧ StandsAsWord "_x" := by
  obtain ⟨-, taken, written⟩ := identifiers_are_single_words
  refine ⟨?_, ?_⟩
  · obtain ⟨i, is, test⟩ := exists_ok_of_test
      (Intake.ofReport { repoRoot := "/repo" } (· == "src/A.js") Intake.mixedReport)
      (fun i => i.files.any fun group => group.2.any (·.symbolName == "toast")) (by decide +kernel)
    simp only [List.any_eq_true, beq_iff_eq] at test
    obtain ⟨⟨path, diagnostics⟩, here, d, listed, named⟩ := test
    have stands := taken _ _ _ i is path diagnostics here d listed "_" (.inr (by decide)) 1
    rw [named] at stands
    exact ⟨i, is, ⟨path, diagnostics, here, d, listed, named⟩, stands⟩
  · obtain ⟨t, parsed, test⟩ := exists_ok_of_test (parse "let x = 1;" .javascript)
      (fun t => (Progress.apply { tree := t } {} (.rename ⟨1, 4⟩ "x")).toOption.any (·.1 == ["_x"]))
      (by decide +kernel)
    cases done : Progress.apply { tree := t } {} (.rename ⟨1, 4⟩ "x") with
    | error reason =>
        rw [done] at test
        cases test
    | ok result =>
        obtain ⟨names, next⟩ := result
        rw [done] at test
        obtain rfl : names = ["_x"] := beq_iff_eq.mp test
        have stands := written {} _ next _ _ (.inr (by decide)) (by decide) done "_x" List.mem_cons_self
        exact ⟨t, next, parsed, done, stands⟩

end BindingRepair
