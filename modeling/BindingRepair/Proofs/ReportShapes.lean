/-
# The two shapes of reports

A report lists its records one by one, or it lists the messages of each file in an entry of their own. An entry means
no more than its messages with its path given to those that state none, and an object around either list means no
more than the list.
-/

import BindingRepair.Intake

namespace BindingRepair

namespace Json

/-- The object with a value under a name, in place of the one it had there. -/
def withField (j : Json) (name : String) (value : Json) : Json :=
  match j with
  | object fields => object ((name, value) :: fields.filter (·.1 ≠ name))
  | other => other

/-- The messages that an entry lists. -/
def messages? (j : Json) : Option (List Json) :=
  (j.field? "messages").bind (·.array?)

/-- The path that an entry or a message states: the first of the fields for paths that it has, if that is a string. -/
def statedPath? (j : Json) : Option String :=
  (j.firstField? pathFields).bind (·.string?)

/-- The value is an object that lists no messages. -/
structure IsMessage (j : Json) : Prop where
  object : ∃ fields, j = .object fields
  single : j.messages? = none

/-- The entry lists messages. -/
def ListsMessages (entry : Json) : Prop :=
  ∃ messages, entry.messages? = some messages ∧ ∀ message ∈ messages, message.IsMessage

/-- A message with the path of its entry, unless it states one itself or the entry states none. -/
def withPathOf (entry message : Json) : Json :=
  match message.statedPath?, entry.statedPath? with
  | none, some path => message.withField "filePath" (.string path)
  | _, _ => message

/-- The messages of all entries in order, each with its path. -/
def flattened (entries : List Json) : List Json :=
  entries.flatMap fun entry => (entry.messages?.getD []).map entry.withPathOf

/-! ### Fields -/

theorem lookup_filter_ne {name other : String} (differs : other ≠ name) (fields : List (String × Json)) :
    (fields.filter (·.1 ≠ name)).lookup other = fields.lookup other := by
  induction fields with
  | nil => rfl
  | cons field fields ih =>
      obtain ⟨key, value⟩ := field
      by_cases same : key = name
      · subst same
        rw [List.filter_cons_of_neg (by simp), ih, List.lookup_cons, beq_eq_false_iff_ne.mpr differs]
      · rw [List.filter_cons_of_pos (by simpa using same), List.lookup_cons, List.lookup_cons, ih]

theorem field?_withField_self {j : Json} (object : ∃ fields, j = .object fields) (name : String) (value : Json) :
    (j.withField name value).field? name = some value := by
  obtain ⟨fields, rfl⟩ := object
  exact List.lookup_cons_self

theorem field?_withField_of_ne (j : Json) {name other : String} (differs : other ≠ name) (value : Json) :
    (j.withField name value).field? other = j.field? other := by
  cases j with
  | object fields =>
      show List.lookup other ((name, value) :: fields.filter (·.1 ≠ name)) = fields.lookup other
      rw [List.lookup_cons, beq_eq_false_iff_ne.mpr differs, lookup_filter_ne differs]
  | _ => rfl

/-- A field that is not among those asked for does not matter. -/
theorem firstField?_withField_of_not_mem (j : Json) {name : String} {names : List String} (other : name ∉ names)
    (value : Json) : (j.withField name value).firstField? names = j.firstField? names := by
  have same : names.findSome? (j.withField name value).field? = names.findSome? j.field? := by
    induction names with
    | nil => rfl
    | cons first names ih =>
        obtain ⟨differs, later⟩ := List.ne_and_not_mem_of_not_mem_cons other
        rw [List.findSome?_cons, List.findSome?_cons, field?_withField_of_ne j differs.symm, ih later]
  rw [firstField?, firstField?, same]

/-- What stands in the first of the fields asked for is found, unless it is null. -/
theorem firstField?_withField_of_head {j : Json} (object : ∃ fields, j = .object fields) (name : String)
    (names : List String) {value : Json} (filled : value.isNull = false) :
    (j.withField name value).firstField? (name :: names) = some value := by
  rw [firstField?, List.findSome?_cons, field?_withField_self object]
  simp [filled]

end Json

namespace ReportRecord

open Json

/-! ### Records -/

/-- Where a message is given a path, its record has that path and is otherwise the same. -/
theorem ofJson_withField {message : Json} (object : ∃ fields, message = .object fields) (path : String) :
    ofJson (message.withField "filePath" (.string path)) = { ofJson message with filePath := some path } := by
  unfold ofJson
  rw [pathFields, firstField?_withField_of_head object _ _ rfl]
  simp [firstField?_withField_of_not_mem, string?]

/-- A message with the path of its entry has the record that the entry gives for the message. -/
theorem ofJson_withPathOf (entry : Json) {message : Json} (object : ∃ fields, message = .object fields) :
    ofJson (entry.withPathOf message) =
      { ofJson message with filePath := (ofJson message).filePath <|> entry.statedPath? } := by
  have own : (ofJson message).filePath = message.statedPath? := rfl
  rw [own, withPathOf]
  cases stated : message.statedPath? with
  | some path =>
      show ofJson message = { ofJson message with filePath := some path }
      rw [← stated, ← own]
  | none =>
      cases entry.statedPath? with
      | some path => exact ofJson_withField object path
      | none =>
          show ofJson message = { ofJson message with filePath := none }
          rw [← stated, ← own]

theorem isMessage_withPathOf (entry : Json) {message : Json} (is : message.IsMessage) :
    (entry.withPathOf message).IsMessage := by
  unfold withPathOf
  split
  · obtain ⟨fields, rfl⟩ := is.object
    refine ⟨⟨_, rfl⟩, ?_⟩
    rw [messages?, field?_withField_of_ne _ (by decide)]
    exact is.single
  · exact is

/-- Messages in a list of their own have one record each. -/
theorem flatMap_ofEntry {messages : List Json} (are : ∀ message ∈ messages, message.IsMessage) :
    messages.flatMap ofEntry = messages.map ofJson := by
  induction messages with
  | nil => rfl
  | cons message messages ih =>
      obtain ⟨first, later⟩ := List.forall_mem_cons.mp are
      have single := first.single
      rw [messages?] at single
      rw [List.flatMap_cons, ih later, ofEntry, single, List.map_cons, List.singleton_append]

/-- An entry gives the records of its messages with their paths. -/
theorem ofEntry_of_messages {entry : Json} {messages : List Json} (listed : entry.messages? = some messages)
    (are : ∀ message ∈ messages, message.IsMessage) :
    ofEntry entry = (messages.map entry.withPathOf).flatMap ofEntry := by
  have given : ∀ message ∈ messages.map entry.withPathOf, message.IsMessage :=
    List.forall_mem_map.mpr fun message here => isMessage_withPathOf entry (are message here)
  rw [flatMap_ofEntry given, List.map_map]
  rw [messages?] at listed
  rw [ofEntry, listed]
  exact List.map_congr_left fun message here => (ofJson_withPathOf entry (are message here).object).symm

/-- The entries and their messages in one list are the same records. -/
theorem ofReport?_flattened {entries : List Json} (are : ∀ entry ∈ entries, entry.ListsMessages) :
    ofReport? (.array (flattened entries)) = ofReport? (.array entries) := by
  have same : (flattened entries).flatMap ofEntry = entries.flatMap ofEntry := by
    induction entries with
    | nil => rfl
    | cons entry entries ih =>
        obtain ⟨⟨messages, listed, each⟩, later⟩ := List.forall_mem_cons.mp are
        have rest := ih later
        unfold flattened at rest ⊢
        rw [List.flatMap_cons, List.flatMap_append, rest, List.flatMap_cons, listed,
          ofEntry_of_messages listed each]
        rfl
  exact congrArg some same

/-- The object around a list does not matter. -/
theorem ofReport?_wrapped {name : String} (known : name ∈ ["diagnostics", "results"]) (items : List Json) :
    ofReport? (.object [(name, .array items)]) = ofReport? (.array items) := by
  simp only [List.mem_cons, List.not_mem_nil, or_false] at known
  rcases known with rfl | rfl <;> rfl

end ReportRecord

namespace Intake

/-- The two reports are looked up and taken in alike. -/
structure Agree (report other : Json) : Prop where
  paths : ∀ o, Intake.paths o report = Intake.paths o other
  taken : ∀ o isFile, Intake.ofReport o isFile report = Intake.ofReport o isFile other

/-- The records are all that matters of a report. -/
theorem agree_of_records {report other : Json} (same : ReportRecord.ofReport? report = ReportRecord.ofReport? other) :
    Agree report other where
  paths o := by rw [Intake.paths, Intake.paths, same]
  taken o isFile := by rw [Intake.ofReport, Intake.ofReport, same]

/-- A report of entries means what the list of all messages with their paths means, and so does an object that holds
either list. -/
theorem report_shapes_agree :
    (∀ entries : List Json, (∀ entry ∈ entries, entry.ListsMessages) →
      Agree (.array entries) (.array (Json.flattened entries))) ∧
      ∀ (items : List Json), ∀ name ∈ ["diagnostics", "results"],
        Agree (.object [(name, .array items)]) (.array items) :=
  ⟨fun _ are => agree_of_records (ReportRecord.ofReport?_flattened are).symm,
    fun items _ known => agree_of_records (ReportRecord.ofReport?_wrapped known items)⟩

/-- An entry with a path, whose messages state none, state one that is null or no string, or state one, and an entry
without a path. -/
def entriesWithPaths : List Json :=
  [.object [("path", .string "src/A.js"), ("messages", .array [
      .object [("ruleId", .string "no-undef"), ("messages", .null)],
      .object [("filePath", .null), ("path", .string "src/C.js")],
      .object [("line", .nat 1), ("file_path", .nat 7)],
      .object [("file_path", .string "src/B.js")]])],
    .object [("filePath", .nat 1), ("path", .string "src/A.js"), ("messages", .array [.object []])]]

/-- All but the last record have a path in both shapes, and only one of them its own. -/
theorem agree_entriesWithPaths : (∀ entry ∈ entriesWithPaths, entry.ListsMessages) ∧
    (ReportRecord.ofReport? (.array (Json.flattened entriesWithPaths))).map (·.map (·.filePath)) =
      some [some "src/A.js", some "src/A.js", some "src/A.js", some "src/B.js", none] ∧
    Agree (.array entriesWithPaths) (.array (Json.flattened entriesWithPaths)) ∧
    Agree (.object [("results", .array entriesWithPaths)]) (.array entriesWithPaths) := by
  have message (fields : List (String × Json)) (single : (Json.object fields).messages? = none) :
      (Json.object fields).IsMessage := ⟨⟨fields, rfl⟩, single⟩
  have lists : ∀ entry ∈ entriesWithPaths, entry.ListsMessages := by
    refine List.forall_mem_cons.mpr ⟨⟨_, rfl, ?_⟩, List.forall_mem_singleton.mpr ⟨_, rfl, ?_⟩⟩
    · simp only [List.forall_mem_cons]
      exact ⟨message _ rfl, message _ rfl, message _ rfl, message _ rfl, nofun⟩
    · exact List.forall_mem_singleton.mpr (message _ rfl)
  have agree := report_shapes_agree
  exact ⟨lists, by decide +kernel, agree.1 _ lists, agree.2 _ "results" (by decide)⟩

end Intake

end BindingRepair
