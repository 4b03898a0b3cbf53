/-! # Files

What the program needs of a file system. Files hold text and are named by paths.
-/

namespace Provenance

/-- Why a file cannot be read. -/
inductive FileError where
  | missing
  /-- A part of the path that should be a directory is none. -/
  | notDirectory
  | nameTooLong
  | isDirectory
  /-- The file can be opened, but does not hold text. -/
  | notText
  | other (message : String)
  deriving DecidableEq, Repr

/-- The wording of the error. -/
def FileError.message : FileError → String
  | missing => "No such file or directory (os error 2)"
  | notDirectory => "Not a directory (os error 20)"
  | nameTooLong => "File name too long (os error 36)"
  | isDirectory => "Is a directory (os error 21)"
  | notText => "stream did not contain valid UTF-8"
  | other message => message

/-- The operations of a file system. Those that change it say whether they succeed. -/
structure FileSystem (m : Type → Type) where
  read : (path : String) → m (Except FileError String)
  write : (path text : String) → m Bool
  /-- Makes a directory, and those above it; one that is there already is left alone. -/
  makeDirectory : (path : String) → m Bool

namespace Path

/-- The parts of a path between slashes. -/
def parts : List Char → List (List Char)
  | [] => [[]]
  | '/' :: rest => [] :: parts rest
  | c :: rest =>
    match parts rest with
    | [] => [[c]]
    | first :: others => (c :: first) :: others

/-- A path without the slashes and the single points that follow its last part. The path is given
    and answered back to front. -/
def trimEnd : List Char → List Char
  | '/' :: rest => trimEnd rest
  | '.' :: '/' :: rest => trimEnd rest
  | path => path

/-- The path of the directory that holds a file, unless the path is the name of the file alone. -/
def parent? (path : String) : Option String :=
  let above := (trimEnd path.toList.reverse).dropWhile (· ≠ '/')
  if above.isEmpty then none else some (String.ofList above.reverse)

/-- What a further part makes of the parts of a path: a double point takes one away, if there is
    one that can be taken away. -/
def advance (absolute : Bool) (reached : List String) (part : String) : List String :=
  if part = "" || part = "." then reached
  else if part = ".." then
    match reached.getLast? with
    | none => if absolute then [] else [".."]
    | some last => if last = ".." then reached ++ [".."] else reached.dropLast
  else reached ++ [part]

/-- What the parts of a path lead to, one after another. -/
def stations (absolute : Bool) (reached : List String) : List String → List (List String)
  | [] => [reached]
  | part :: rest => reached :: stations absolute (advance absolute reached part) rest

/-- The path of some parts. -/
def ofParts (absolute : Bool) (parts : List String) : String :=
  if absolute then "/" ++ String.intercalate "/" parts
  else if parts.isEmpty then "." else String.intercalate "/" parts

/-- The paths that are reached when the parts of a path are taken one after another. In each of
    them double points stand in front only. -/
def ways (path : String) : List String :=
  let absolute := path.startsWith "/"
  (stations absolute [] ((parts path.toList).map String.ofList)).map (ofParts absolute)

/-- The longest name of a file, in bytes. -/
def longestName : Nat := 255

/-- The length of the last part of a path, in bytes. -/
def nameLength (path : String) : Nat :=
  (String.ofList (path.toList.reverse.takeWhile (· ≠ '/')).reverse).utf8ByteSize

/-- The path of a file below a directory. -/
def below (directory file : String) : String := directory ++ "/" ++ file

end Path

end Provenance
