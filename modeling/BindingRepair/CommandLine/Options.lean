/-
# Options

Options of a command line: words that begin with two hyphens, each with a value, behind it or behind an
equals sign, or without one. They are read in order; the first word that cannot be read, and a request
for help, end the reading.
-/

namespace BindingRepair.CommandLine

/-- What an option takes, and how often it may be given. -/
inductive OptionKind
  /-- Nothing; at most once. -/
  | flag
  /-- A value; at most once. -/
  | single
  /-- A value; any number of times. -/
  | repeated
deriving DecidableEq, Repr

structure OptionSpec where
  name : String
  kind : OptionKind
  /-- Which values it may have. -/
  accepts : String → Bool := fun _ => true

inductive UsageError
  | unexpectedArgument (word : String)
  | missingValue (name : String)
  | unexpectedValue (name : String)
  | repeatedOption (name : String)
  | invalidValue (name value : String)
  | missingOption (name : String)
  | missingCommand
  | unknownCommand (word : String)
deriving DecidableEq, Repr

namespace UsageError

/-- The error in words. -/
def message : UsageError → String
  | unexpectedArgument word => "unexpected argument '" ++ word ++ "'"
  | missingValue name => "a value is required for '--" ++ name ++ "'"
  | unexpectedValue name => "'--" ++ name ++ "' takes no value"
  | repeatedOption name => "'--" ++ name ++ "' cannot be used multiple times"
  | invalidValue name value => "invalid value '" ++ value ++ "' for '--" ++ name ++ "'"
  | missingOption name => "'--" ++ name ++ "' is required"
  | missingCommand => "a command is required"
  | unknownCommand word => "unknown command '" ++ word ++ "'"

end UsageError

/-- The options of a command line, with their values; flags have an empty one. -/
abbrev Options := List (String × String)

namespace Options

/-- Whether an option is given. -/
def has (o : Options) (name : String) : Bool :=
  (o.lookup name).isSome

/-- The values of an option, in order. -/
def values (o : Options) (name : String) : List String :=
  o.filterMap fun (n, value) => if n = name then some value else none

/-- The options with one more. -/
def add (o : Options) (spec : OptionSpec) (value : String) : Except UsageError Options :=
  if spec.kind ≠ .repeated && o.has spec.name then .error (.repeatedOption spec.name)
  else if spec.accepts value then .ok (o ++ [(spec.name, value)])
  else .error (.invalidValue spec.name value)

end Options

/-- Why the reading of options ends early. -/
inductive Stop
  | help
  | usage (error : UsageError)
deriving DecidableEq, Repr

/-- What a word is at a place where an option may stand. -/
inductive Word
  /-- Two hyphens, a name, and perhaps a value behind an equals sign. -/
  | option (name : String) (value : Option String)
  /-- One hyphen and a letter, perhaps with others behind it. -/
  | letter (letter : Char)
  /-- Two hyphens: no options follow. -/
  | separator
  /-- Anything else. -/
  | plain
deriving DecidableEq, Repr

/-- What a word is. -/
def Word.ofString (word : String) : Word :=
  match word.toList with
  | ['-', '-'] => .separator
  | '-' :: '-' :: cs =>
    match cs.span (· != '=') with
    | (name, []) => .option (String.ofList name) none
    | (name, _ :: value) => .option (String.ofList name) (some (String.ofList value))
  | '-' :: c :: _ => .letter c
  | _ => .plain

/-- Reads the options with the given specifications. -/
def readOptions (specs : List OptionSpec) (o : Options) : List String → Except Stop Options
  | [] => .ok o
  | word :: words =>
    let unexpected : Except Stop Options := .error (.usage (.unexpectedArgument word))
    match Word.ofString word with
    | .separator =>
      match words with
      | [] => .ok o
      | next :: _ => .error (.usage (.unexpectedArgument next))
    | .letter c => if c == 'h' then .error .help else unexpected
    | .plain => unexpected
    | .option "help" none => .error .help
    | .option name value =>
      match specs.find? (·.name = name) with
      | none => unexpected
      | some spec =>
        match spec.kind, value with
        | .flag, some _ => .error (.usage (.unexpectedValue name))
        | .flag, none => do readOptions specs (← (o.add spec "").mapError .usage) words
        | _, some value => do readOptions specs (← (o.add spec value).mapError .usage) words
        | _, none =>
          match words with
          | [] => .error (.usage (.missingValue name))
          | value :: rest =>
            match Word.ofString value with
            | .plain => do readOptions specs (← (o.add spec value).mapError .usage) rest
            | _ => .error (.usage (.missingValue name))

end BindingRepair.CommandLine
