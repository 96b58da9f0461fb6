/-
# The program

Carries out the command line in the file system of the machine.
-/

import BindingRepair.CommandLine
import Std.Time.DateTime

namespace BindingRepair

/-- The error of an action of the machine. -/
def FileError.ofMachine (e : IO.Error) : FileError :=
  match e with
  | .noFileOrDirectory .. => .notFound
  | e => .other (toString e)

/-- Carries out an action, unless it fails. -/
def attempt {α : Type} (action : IO α) : IO (Except FileError α) := do
  try return .ok (← action)
  catch e => return .error (.ofMachine e)

/-- The bytes of a file, as a text. -/
def readMachineText (path : String) : IO (Except FileError String) := do
  match ← attempt (IO.FS.readBinFile path) with
  | .error e => return .error e
  | .ok bytes =>
    match String.fromUTF8? bytes with
    | none => return .error .notText
    | some text => return .ok text

/-- The file system of the machine. -/
def machine : FileSystem IO where
  readText := readMachineText
  isFile path := return (← attempt (IO.FS.readBinFile path)).toBool
  isDirectory path := return (← attempt do (← IO.FS.realPath path).isDir).toOption.getD false
  resolve path := attempt do return toString (← IO.FS.realPath path)
  makeDirectory path := attempt (IO.FS.createDir path)
  writeText path text := attempt (IO.FS.writeFile path text)

/-- The time of the machine. -/
def machineTime : IO (Option Instant) := do
  let now := Std.Time.DateTime.ofTimestampWithZone (← Std.Time.Timestamp.now) Std.Time.TimeZone.UTC
  let date := now.toPlainDateTime.date
  let time := now.toPlainDateTime.time
  return some {
    date := { year := date.year.toInt, month := date.month.toNat, day := date.day.toNat }
    time := {
      hour := time.hour.toNat
      minute := time.minute.toNat
      second := time.second.toNat
      nanosecond := time.nanosecond.toNat } }

/-- Tells how the program ends. -/
def tell (e : CommandLine.Ending) : IO Unit :=
  match e with
  | .success output => IO.print output
  | .failure error => IO.eprintln error.message
  | .misuse error => IO.eprintln ("error: " ++ error.message)

end BindingRepair

def main (words : List String) : IO UInt32 := do
  let ending ← BindingRepair.CommandLine.run BindingRepair.machine BindingRepair.machineTime
    (← IO.getEnv "JSMEND_JOBS") words
  BindingRepair.tell ending
  return ending.exitCode
