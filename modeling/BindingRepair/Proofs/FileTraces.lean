/-
# Traces of file programs

A program decides what to do next by the answers that it gets. A trace lists what it does together with
the answers. The traces with which a program can end are those of its runs over all files, readers and
writers, whatever they answer: every run leaves a trace, and every trace is left by a run.
-/

import BindingRepair.Run.FileProgram

namespace BindingRepair

/-- What a program does with a file, and the answer to it. -/
inductive FileEvent
  | read (path : String) (answer : Except String String)
  | write (path text : String) (answer : Except String Unit)

namespace FileProgram

variable {α β : Type}

/-- With some answers the program does `events`, one after another, and ends with a result. -/
inductive Yields : FileProgram α → List FileEvent → α → Prop
  | done (result : α) : Yields (.done result) [] result
  | read {path : String} {next : Except String String → FileProgram α} {events : List FileEvent}
      {result : α} (answer : Except String String) (rest : Yields (next answer) events result) :
      Yields (.read path next) (.read path answer :: events) result
  | write {path text : String} {next : Except String Unit → FileProgram α}
      {events : List FileEvent} {result : α} (answer : Except String Unit)
      (rest : Yields (next answer) events result) :
      Yields (.write path text next) (.write path text answer :: events) result

namespace Yields

/-- A program that goes on with another one does what the first does, and then what the second does. -/
theorem of_bind {p : FileProgram α} {f : α → FileProgram β} {events : List FileEvent} {result : β}
    (yields : (p.bind f).Yields events result) :
    ∃ first middle second,
      p.Yields first middle ∧ (f middle).Yields second result ∧ events = first ++ second := by
  induction p generalizing events with
  | done middle => exact ⟨[], middle, events, .done middle, yields, rfl⟩
  | read path next ih =>
    cases yields with
    | read answer rest =>
      have ⟨first, middle, second, before, behind, parts⟩ := ih answer rest
      exact ⟨_, middle, second, .read answer before, behind, by rw [parts, List.cons_append]⟩
  | write path text next ih =>
    cases yields with
    | write answer rest =>
      have ⟨first, middle, second, before, behind, parts⟩ := ih answer rest
      exact ⟨_, middle, second, .write answer before, behind, by rw [parts, List.cons_append]⟩

/-- A program whose result is changed does the same. -/
theorem of_map {p : FileProgram α} {f : α → β} {events : List FileEvent} {result : β}
    (yields : (p.map f).Yields events result) : ∃ middle, p.Yields events middle ∧ result = f middle := by
  have ⟨first, middle, second, before, behind, parts⟩ := of_bind yields
  cases behind
  rw [parts, List.append_nil]
  exact ⟨middle, before, rfl⟩

theorem map {p : FileProgram α} {events : List FileEvent} {result : α} (yields : p.Yields events result)
    (f : α → β) : (p.map f).Yields events (f result) := by
  induction yields with
  | done result => exact .done (f result)
  | read answer _ ih => exact .read answer ih
  | write answer _ ih => exact .write answer ih

end Yields

section Runs

variable {σ : Type}

/-- Carries out reads and writes as `access` does, and keeps a record of them. -/
def recording (access : FileAccess (StateM σ)) : FileAccess (StateM (σ × List FileEvent)) where
  read path := fun (world, events) =>
    let (answer, world') := access.read path world
    (answer, world', events ++ [.read path answer])
  write path text := fun (world, events) =>
    let (answer, world') := access.write path text world
    (answer, world', events ++ [.write path text answer])

/-- The record of a run is a trace of the program. Recording changes neither the result of the run nor
what it does to the world. -/
theorem run_recording (access : FileAccess (StateM σ)) (p : FileProgram α) (world : σ)
    (before : List FileEvent) :
    ∃ events, p.Yields events (p.run access world).1 ∧
      p.run (recording access) (world, before) =
        ((p.run access world).1, (p.run access world).2, before ++ events) := by
  induction p generalizing world before with
  | done result => exact ⟨[], .done result, by rw [List.append_nil]; rfl⟩
  | read path next ih =>
    have ⟨events, yields, recorded⟩ := ih (access.read path world).1 (access.read path world).2
      (before ++ [.read path (access.read path world).1])
    exact ⟨_, .read _ yields, by rw [List.append_cons]; exact recorded⟩
  | write path text next ih =>
    have ⟨events, yields, recorded⟩ := ih (access.write path text world).1
      (access.write path text world).2 (before ++ [.write path text (access.write path text world).1])
    exact ⟨_, .write _ yields, by rw [List.append_cons]; exact recorded⟩

/-- Answers as they stand in a list of events, one after another. -/
def replaying : FileAccess (StateM (List FileEvent)) where
  read _ := fun
    | .read _ answer :: events => (answer, events)
    | events => (.error "", events)
  write _ _ := fun
    | .write _ _ answer :: events => (answer, events)
    | events => (.error "", events)

/-- Every trace of a program is the record of a run. -/
theorem Yields.run_replaying {p : FileProgram α} {events : List FileEvent} {result : α}
    (yields : p.Yields events result) (before : List FileEvent) :
    p.run (recording replaying) (events, before) = (result, [], before ++ events) := by
  induction yields generalizing before with
  | done result => rw [List.append_nil]; rfl
  | read answer _ ih => rw [List.append_cons]; exact ih _
  | write answer _ ih => rw [List.append_cons]; exact ih _

end Runs

end FileProgram

end BindingRepair
