import Provenance.Command.Run
import Provenance.Json.Printer
import Provenance.Log.Location
import Provenance.Log.Store
import Provenance.Log.TableText
import Provenance.Settings.Basic

/-! # The program

The settings are read, the log is opened, the command is run, and the log is flushed and kept,
whether the command succeeds or not.
-/

namespace Provenance

/-- Where files are when neither the command line nor the settings say so. -/
structure DefaultPaths where
  config : Option String := none
  database : Option String := none

/-- The files of the program in the directories for settings and for data. -/
def DefaultPaths.within (settings data : Option String) : DefaultPaths where
  config := settings.map (Path.below · "whence/config.rhai")
  database := data.map (Path.below · "whence/records.db")

/-- A directory that is named by an absolute path, or else one of the home directory. -/
def directoryOr (inside : String) (given home : Option String) : Option String :=
  given.filter (·.startsWith "/") <|> home.map (Path.below · inside)

/-- What a run of the program comes to. -/
structure Exit where
  /-- The exit code: zero, one after a failure, two if the command line makes no sense, and a
      hundred and one if the command was broken off. -/
  code : Nat
  output : String := ""
  failure : Option String := none
  deriving DecidableEq, Repr

/-- The exit after a failure before anything is printed. -/
def Exit.failed (message : String) : Exit := { code := 1, failure := some message }

/-- The exit after a report. Every document is printed over lines of its own. -/
def Report.exit (report : Report) : Exit where
  code := if report.aborted then 101 else if report.failure.isNone then 0 else 1
  output := report.documents.foldl (fun text document => text ++ document.renderSpread ++ "\n") ""
  failure := report.failure

/-- The settings of a script that may not be readable. Only one that was asked for has to be
    there. -/
def Settings.ofFile (path : String) (required : Bool) (content : Except FileError String) :
    Except String Settings :=
  match content with
  | .ok script => (Settings.ofScript script).mapError SettingsError.message
  | .error e =>
    if e = .missing && !required then .ok {}
    else .error ("failed to read " ++ path ++ ": " ++ e.message)

/-- What has to become of a log when the program ends. -/
inductive Keeping where
  /-- Its table is written to a file. -/
  | write (path : String)
  /-- Its table cannot be written, so it has to be as it was. -/
  | leave (table : Table)
  | forget

/-- A log that is open, and what has to become of it. -/
structure OpenLog where
  log : Store
  keeping : Keeping

variable {m : Type → Type} [Monad m]

/-- Reads a file as text. The file of a table is not meant as text. -/
def readText (files : FileSystem m) (path : String) : m (Except FileError String) := do
  match ← files.read path with
  | .ok text => return if Table.isWritten text then .error .notText else .ok text
  | .error e => return .error e

/-- Reads the settings. -/
def loadSettings (files : FileSystem m) (paths : DefaultPaths) (asked : Option String) :
    m (Except String Settings) := do
  match asked, paths.config with
  | some path, _ => return Settings.ofFile path true (← readText files path)
  | none, some path => return Settings.ofFile path false (← readText files path)
  | none, none => return .ok {}

/-- Whether nothing stands in the way of a path: what is missing does not, and neither do files
    and directories, but their names do if they lead nowhere. -/
def passable (files : FileSystem m) : List String → m Bool
  | [] => return true
  | path :: rest => do
    match ← files.read path with
    | .error .notDirectory => return false
    | .error .nameTooLong => return false
    | _ => passable files rest

/-- The length that has to be left in the name of the file of a table, for the name of the file
    that stands beside it while it is written. -/
def journalLength : Nat := "-journal".utf8ByteSize

/-- Writes the first table to a file. -/
def initialize? (files : FileSystem m) (path : String) : m (Option Table) := do
  if Path.longestName < Path.nameLength path + journalLength then
    let _ ← files.write path ""
    return none
  else return if ← files.write path (Table.render {}) then some {} else none

/-- Opens the table in a file. -/
def openFile (files : FileSystem m) (path : String) (access : Access) : m (Option Table) := do
  match ← files.read path with
  | .ok text =>
    if !Table.isBlank text then return Table.read text
    else if access = .read then return none
    else initialize? files path
  | .error .missing => if access = .make then initialize? files path else return none
  | .error _ => return none

/-- Opens the table at a location. One that is not kept cannot be read alone. -/
def openLocation (files : FileSystem m) (location : Location) :
    m (Option (Table × Keeping)) := do
  if location.isTransient then
    return if location.access = .read then none else some ({}, .forget)
  else
    let ways := Path.ways location.path
    if !(← passable files ways) then return none
    let path := ways.getLastD location.path
    match ← openFile files path location.access with
    | none => return none
    | some table =>
      return some (table, if location.access = .read then .leave table else .write path)

/-- Opens the table of a name. The directory that the name seems to be in is made. -/
def openTable (files : FileSystem m) (name : String) : m (Option (Table × Keeping)) := do
  let made ← match Path.parent? name with
    | some parent => files.makeDirectory parent
    | none => pure true
  if !made then return none
  match Location.ofName? name with
  | none => return none
  | some location => openLocation files location

/-- Opens the log whose table has a name, or one in memory. -/
def openLog (files : FileSystem m) (name : Option String) (limits : BufferLimits) :
    m (Option OpenLog) := do
  match name with
  | none => return some ⟨.memory {}, .forget⟩
  | some name =>
    let table ← openTable files name
    return table.map fun (table, keeping) => ⟨.buffered (.openOn table limits), keeping⟩

/-- Does with a log what has to become of it. -/
def keep (files : FileSystem m) (log : OpenLog) : m Bool :=
  match log.keeping, log.log with
  | .write path, .buffered log => files.write path log.table.render
  | .leave table, .buffered log => pure (log.table = table)
  | _, _ => pure true

/-- Runs the program with a command line that makes sense. -/
def perform (files : FileSystem m) (paths : DefaultPaths) (invocation : Invocation) :
    m Exit := do
  match ← loadSettings files paths invocation.options.config with
  | .error message => return .failed message
  | .ok settings =>
    let name := invocation.options.database <|> settings.path <|> paths.database
    match ← openLog files name settings.buffer with
    | none => return .failed "failed to open record store"
    | some opened =>
      let content ← match invocation.command.file? with
        | some file => readText files file
        | none => pure (.error .missing)
      let (report, log) := invocation.command.run { limits := settings.walk } content opened.log
      let (flushed, log) := RecordLog.flush log
      let kept ← keep files { opened with log }
      if report.aborted || flushed.isOk && kept then return report.exit
      else
        return { report with failure := some "failed to flush record store" : Report }.exit

/-- Runs the program. -/
def execute (files : FileSystem m) (paths : DefaultPaths) (arguments : List String) :
    m Exit :=
  match Invocation.parse arguments with
  | none => return { code := 2 }
  | some invocation => perform files paths invocation

end Provenance
