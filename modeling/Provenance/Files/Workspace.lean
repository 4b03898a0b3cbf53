import Provenance.Files.Basic

/-! # Workspaces

A file system that is a plain value: a tree of files and directories, in which paths start at
a working directory at the top.
-/

namespace Provenance

/-- The way to a file from the top, part by part. -/
abbrev Place := List String

/-- What there is at a place. -/
inductive Node where
  | file (text : String)
  | directory
  deriving DecidableEq, Repr

/-- Files and directories. What a file is in is a directory, whether it is listed or not. -/
structure Workspace where
  files : List (Place × String) := []
  directories : List Place := []
  deriving DecidableEq, Repr, Inhabited

namespace Workspace

/-- What there is at a place, if there is anything. -/
def node? (workspace : Workspace) (place : Place) : Option Node :=
  match workspace.files.find? (·.1 = place) with
  | some (_, text) => some (.file text)
  | none =>
    if place.isEmpty || workspace.directories.any place.isPrefixOf
        || workspace.files.any (place.isPrefixOf ·.1) then
      some .directory
    else none

/-- The place that one part of a path leads to. -/
def step (place : Place) (part : String) : Place :=
  if part = "" || part = "." then place
  else if part = ".." then place.dropLast
  else place ++ [part]

/-- The longest path, in bytes. -/
def longestPath : Nat := 4095

/-- Follows the parts of a path; all but the last have to be directories. -/
def follow (workspace : Workspace) (place : Place) : List String → Except FileError Place
  | [] => .ok place
  | part :: rest =>
    match workspace.node? place with
    | some .directory =>
      if Path.longestName < part.utf8ByteSize then .error .nameTooLong
      else follow workspace (step place part) rest
    | some (.file _) => .error .notDirectory
    | none => .error .missing

/-- The parts of a path. -/
def parts (path : String) : List String := (Path.parts path.toList).map String.ofList

/-- The place of a path. -/
def find (workspace : Workspace) (path : String) : Except FileError Place :=
  if path.isEmpty then .error .missing
  else if longestPath < path.utf8ByteSize then .error .nameTooLong
  else workspace.follow [] (parts path)

/-- Reads a file. -/
def read (path : String) (workspace : Workspace) : Except FileError String :=
  match workspace.find path with
  | .error e => .error e
  | .ok place =>
    match workspace.node? place with
    | some (.file text) => .ok text
    | some .directory => .error .isDirectory
    | none => .error .missing

/-- The workspace with a file at a place. -/
def put (workspace : Workspace) (place : Place) (text : String) : Workspace :=
  { workspace with files := (place, text) :: workspace.files.filter (·.1 ≠ place) }

/-- Writes a file. -/
def write (path text : String) (workspace : Workspace) : Bool × Workspace :=
  match workspace.find path with
  | .error _ => (false, workspace)
  | .ok place =>
    match workspace.node? place with
    | some .directory => (false, workspace)
    | _ => (true, workspace.put place text)

/-- Follows the parts of a path and makes the directories that are missing. -/
def makeAll (place : Place) : List String → Workspace → Bool × Workspace
  | [], workspace => (true, workspace)
  | part :: rest, workspace =>
    let next := step place part
    match workspace.node? next with
    | some .directory => makeAll next rest workspace
    | some (.file _) => (false, workspace)
    | none =>
      if Path.longestName < part.utf8ByteSize then (false, workspace)
      else makeAll next rest { workspace with directories := next :: workspace.directories }

/-- Makes a directory, and those above it. -/
def makeDirectory (path : String) (workspace : Workspace) : Bool × Workspace :=
  makeAll [] (parts path) workspace

/-- The workspace as a file system. -/
def fileSystem : FileSystem (StateM Workspace) where
  read path := fun workspace => (workspace.read path, workspace)
  write path text := write path text
  makeDirectory path := makeDirectory path

/-- A workspace with the given files. -/
def ofFiles (files : List (String × String)) : Workspace :=
  files.foldl (fun workspace (path, text) =>
    workspace.put ((parts path).foldl step []) text) {}

end Workspace

end Provenance
