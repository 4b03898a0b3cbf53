import Provenance.Record.Id

/-! # Command lines

A command line has options, the name of a command, and the values of the command. The
options that say which files to use may stand anywhere; each of them may be given once
before the name and once after it, and then the one after it counts. What begins with a
dash is an option, unless two dashes by themselves stand before it.
-/

namespace Provenance

/-- What the program can be asked to do. -/
inductive Command where
  /-- Append the batches of a file. -/
  | ingest (file : String)
  /-- Print a record. -/
  | print (id : RecordId)
  /-- Walk back from a character of a record. -/
  | traverse (id : RecordId) (charIndex : Nat) (optimistic : Bool)
  /-- List the records of a source location. -/
  | locate (key : String)
  /-- Lead a character of markup back to its assigned string, and perhaps further. -/
  | resolve (snapshot : String) (charIndex : Nat) (trace : Bool)
  deriving DecidableEq, Repr

/-- Which files to use, if the command line says so. -/
structure FileOptions where
  config : Option String := none
  database : Option String := none
  deriving DecidableEq, Repr, Inhabited

namespace FileOptions

/-- Sets an option; it must have a value and not be set already. -/
def set (options : FileOptions) (name value : String) : Option FileOptions :=
  if value.isEmpty then none
  else
    match name, options with
    | "config", { config := none, database } => some { config := some value, database }
    | "db", { config, database := none } => some { config, database := some value }
    | _, _ => none

/-- The options, with others before them that count where these say nothing. -/
def orElse (options before : FileOptions) : FileOptions where
  config := options.config <|> before.config
  database := options.database <|> before.database

end FileOptions

/-- A command line that makes sense. -/
structure Invocation where
  options : FileOptions
  command : Command
  deriving DecidableEq, Repr

/-- How one argument looks. -/
inductive Argument where
  /-- Two dashes by themselves. -/
  | separator
  /-- Two dashes and a name, and perhaps an equals sign and a value. -/
  | option (name : String) (value : Option String)
  /-- A dash and something else. -/
  | dashed
  | plain (text : String)
  deriving DecidableEq, Repr

/-- How an argument looks. A dash by itself is a plain value. -/
def Argument.ofText (text : String) : Argument :=
  match text.toList with
  | ['-', '-'] => .separator
  | '-' :: '-' :: rest =>
    match rest.span (· ≠ '=') with
    | (name, []) => .option (String.ofList name) none
    | (name, _ :: value) => .option (String.ofList name) (some (String.ofList value))
  | '-' :: _ :: _ => .dashed
  | _ => .plain text

/-- What follows the name of a command. -/
structure Remainder where
  options : FileOptions := {}
  /-- Whether the switch of the command was given. -/
  switched : Bool := false
  values : List String := []
  deriving DecidableEq, Repr, Inhabited

/-- Collects what follows the name of a command that has the given switch. -/
def Remainder.collect (switch : Option String) (known : Remainder) : List String → Option Remainder
  | [] => some known
  | text :: rest =>
    match Argument.ofText text with
    | .separator => some { known with values := known.values ++ rest }
    | .dashed => none
    | .plain value => collect switch { known with values := known.values ++ [value] } rest
    | .option name (some value) => do
      collect switch { known with options := ← known.options.set name value } rest
    | .option name none =>
      if switch = some name then
        if known.switched then none else collect switch { known with switched := true } rest
      else
        match rest with
        | [] => none
        | text :: rest =>
          match Argument.ofText text with
          | .plain value => do
            collect switch { known with options := ← known.options.set name value } rest
          | _ => none

/-- The switch of a command, if there is a command of that name. -/
def switchOf : String → Option (Option String)
  | "ingest" => some none
  | "show" => some none
  | "traverse" => some (some "optimistic")
  | "locate" => some none
  | "resolve" => some (some "trace")
  | _ => none

/-- Reads a character index. -/
def readIndex (text : String) : Option Nat :=
  (Text.readWord text.toList).toOption.map UInt64.toNat

/-- The path of a file, which is not empty. -/
def readPath (text : String) : Option String := if text.isEmpty then none else some text

/-- The command of a name with its values. -/
def Command.ofValues (name : String) (switched : Bool) (values : List String) : Option Command :=
  match name, values with
  | "ingest", [file] => do pure (.ingest (← readPath file))
  | "show", [id] => do pure (.print (← (RecordId.parse id).toOption))
  | "traverse", [id, index] => do
    pure (.traverse (← (RecordId.parse id).toOption) (← readIndex index) switched)
  | "locate", [key] => some (.locate key)
  | "resolve", [snapshot, index] => do
    pure (.resolve (← readPath snapshot) (← readIndex index) switched)
  | _, _ => none

/-- Reads the command line after the options that stand before the name of the command. -/
def Invocation.parseAfter (options : FileOptions) : List String → Option Invocation
  | [] => none
  | text :: rest =>
    match Argument.ofText text with
    | .separator => none
    | .dashed => none
    | .plain name => do
      let remainder ← Remainder.collect (← switchOf name) {} rest
      let command ← Command.ofValues name remainder.switched remainder.values
      pure ⟨remainder.options.orElse options, command⟩
    | .option name (some value) => do parseAfter (← options.set name value) rest
    | .option name none =>
      match rest with
      | [] => none
      | text :: rest =>
        match Argument.ofText text with
        | .plain value => do parseAfter (← options.set name value) rest
        | _ => none

/-- Reads a command line; `none` if it makes no sense. -/
def Invocation.parse (arguments : List String) : Option Invocation := parseAfter {} arguments

end Provenance
