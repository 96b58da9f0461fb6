/-
# Write logs

What has been written, by path, where nothing is written to a file system. Paths with the same
components are one path; it is kept as it was first written.
-/

import BindingRepair.Path

namespace BindingRepair

structure WriteLog where
  entries : List (String × String) := []
deriving DecidableEq, Repr

namespace WriteLog

/-- The text that was last written to a path. -/
def text? (log : WriteLog) (path : String) : Option String :=
  (log.entries.find? fun (p, _) => Path.components p = Path.components path).map (·.2)

/-- The log with one more text written. -/
def record (log : WriteLog) (path text : String) : WriteLog :=
  if (log.text? path).isSome then
    ⟨log.entries.map fun (p, t) =>
      if Path.components p = Path.components path then (p, text) else (p, t)⟩
  else ⟨log.entries ++ [(path, text)]⟩

/-- The last text counts. -/
theorem text?_record_self (log : WriteLog) (path text : String) :
    (log.record path text).text? path = some text := by
  unfold record
  split
  · next h =>
    simp only [text?, Option.isSome_map, List.find?_isSome, decide_eq_true_eq] at h
    obtain ⟨⟨p, t⟩, hm, hp⟩ := h
    simp only at hp
    cases hf : List.find? (fun x => decide (Path.components x.1 = Path.components path))
        (log.entries.map fun x =>
          if Path.components x.1 = Path.components path then (x.1, text) else (x.1, x.2)) with
    | none =>
      rw [List.find?_eq_none] at hf
      have := hf (p, text) (List.mem_map.2 ⟨(p, t), hm, by simp [hp]⟩)
      simp [hp] at this
    | some found =>
      have hin := List.mem_of_find?_eq_some hf
      have heq := List.find?_some hf
      obtain ⟨q, hq, rfl⟩ := List.mem_map.1 hin
      simp only [text?, hf]
      by_cases h : Path.components q.1 = Path.components path
      · simp [h]
      · simp [h] at heq
  · next h =>
    have : List.find? (fun x => decide (Path.components x.1 = Path.components path))
        log.entries = none := by
      simpa [text?] using h
    simp [text?, List.find?_append, this]

end WriteLog

end BindingRepair
