/-
# File programs

A computation that reads and writes files, as data: it stops with a result, or reads or writes a file
and goes on with what comes of it. A read may fail, a write may fail, and a second read of a file need
not give what the first one gave.
-/

namespace BindingRepair

inductive FileProgram (α : Type)
  | done (result : α)
  /-- Reads the text of a file, or learns why it cannot be read. -/
  | read (path : String) (next : Except String String → FileProgram α)
  /-- Gives a file a text, or learns why it cannot be written. -/
  | write (path text : String) (next : Except String Unit → FileProgram α)

/-- What carries out reads and writes. -/
structure FileAccess (m : Type → Type) where
  read : String → m (Except String String)
  write : String → String → m (Except String Unit)

namespace FileProgram

variable {α β : Type}

/-- Goes on with another program. -/
def bind (p : FileProgram α) (f : α → FileProgram β) : FileProgram β :=
  match p with
  | done result => f result
  | read path next => .read path fun text => (next text).bind f
  | write path text next => .write path text fun written => (next written).bind f

def map (f : α → β) (p : FileProgram α) : FileProgram β :=
  p.bind fun result => .done (f result)

/-- Carries out a program. -/
def run {m : Type → Type} [Monad m] (access : FileAccess m) : FileProgram α → m α
  | done result => pure result
  | read path next => do (next (← access.read path)).run access
  | write path text next => do (next (← access.write path text)).run access

end FileProgram

end BindingRepair
