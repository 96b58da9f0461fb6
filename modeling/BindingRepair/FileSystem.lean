/-
# File systems

What a run asks of the files around it. The operations are those of any system with directories; what
they are carried out in is left open.
-/

import BindingRepair.Path
import BindingRepair.Run.FileProgram

namespace BindingRepair

/-- Why a file or directory cannot be used. -/
inductive FileError
  | notFound
  | notADirectory
  | isADirectory
  | alreadyExists
  | nameTooLong
  /-- Its path holds a character that no name may hold. -/
  | nulInPath
  /-- Its bytes are no text. -/
  | notText
  | other (text : String)
deriving DecidableEq, Repr

namespace FileError

/-- The error in words. -/
def message : FileError → String
  | notFound => "No such file or directory (os error 2)"
  | notADirectory => "Not a directory (os error 20)"
  | isADirectory => "Is a directory (os error 21)"
  | alreadyExists => "File exists (os error 17)"
  | nameTooLong => "File name too long (os error 36)"
  | nulInPath => "file name contained an unexpected NUL byte"
  | notText => "stream did not contain valid UTF-8"
  | other text => text

/-- The error of a failed read. -/
def readMessage (path : String) (e : FileError) : String :=
  (match e with
    | isADirectory | notText => "failed to read from file"
    | _ => "failed to open file") ++ " `" ++ path ++ "`: " ++ e.message

/-- The error of a failed write. -/
def writeMessage (path : String) (e : FileError) : String :=
  "failed to create file `" ++ path ++ "`: " ++ e.message

/-- The error of a directory that cannot be made. -/
def directoryMessage (path : String) (e : FileError) : String :=
  "failed to create directory `" ++ path ++ "`: " ++ e.message

end FileError

structure FileSystem (m : Type → Type) where
  readText : String → m (Except FileError String)
  isFile : String → m Bool
  isDirectory : String → m Bool
  /-- The absolute path of what a path leads to. -/
  resolve : String → m (Except FileError String)
  /-- Makes a directory in one that exists. -/
  makeDirectory : String → m (Except FileError Unit)
  writeText : String → String → m (Except FileError Unit)

/-- Why a text cannot be written to a path. -/
inductive WriteError
  /-- The directory around the file cannot be made. -/
  | parent (directory cause : String)
  | file (path cause : String)
deriving DecidableEq, Repr

namespace FileSystem

variable {m : Type → Type} [Monad m] (fs : FileSystem m)

/-- Makes a directory unless it exists. -/
def ensureDirectory (path : String) : m (Except FileError Unit) := do
  match ← fs.makeDirectory path with
  | .ok () => return .ok ()
  | .error e => return if ← fs.isDirectory path then .ok () else .error e

/-- Makes the first of some directories, each of which lies in the next one. The others are made only
as far as they are missing, and stay even if the first cannot be made. -/
def ensureNested : List String → m (Except FileError Unit)
  | [] => return .ok ()
  | path :: around => do
    match ← fs.ensureDirectory path with
    | .error .notFound =>
      match ← ensureNested around with
      | .error e => return .error e
      | .ok () => fs.ensureDirectory path
    | result => return result

/-- Makes a directory and those around it, unless they exist. -/
def makeDirectories (path : String) : m (Except FileError Unit) :=
  fs.ensureNested ((Path.ancestors path).filter (!·.isEmpty))

/-- Makes the directory around a file, and those around that. -/
def makeParent (path : String) : m (Except WriteError Unit) :=
  match Path.parent? path with
  | none => return .ok ()
  | some directory => do
    return (← fs.makeDirectories directory).mapError fun e =>
      .parent directory (e.directoryMessage directory)

/-- Writes a text to a path, with the directories around it. -/
def write (path text : String) : m (Except WriteError Unit) := do
  match ← fs.makeParent path with
  | .error e => return .error e
  | .ok () =>
    return (← fs.writeText path text).mapError fun e => .file path (e.writeMessage path)

/-- What carries out reads and writes in the file system. -/
def access : FileAccess m where
  read path := do
    return (← fs.readText path).mapError fun e => "read " ++ path ++ ": " ++ e.readMessage path
  write path text := do
    return (← fs.write path text).mapError fun
      | .parent _ cause => "create parent dir for " ++ path ++ ": " ++ cause
      | .file path cause => "write " ++ path ++ ": " ++ cause

end FileSystem

end BindingRepair
