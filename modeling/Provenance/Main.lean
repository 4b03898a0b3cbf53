import Provenance.Command.Program

/-! # The command line

The program over the files and the streams of the system.
-/

namespace Provenance

/-- What an error of the system means for a file. Some codes come with a minus sign. -/
def FileError.ofSystem : IO.Error → FileError
  | .noFileOrDirectory _ _ _ => .missing
  | .inappropriateType _ code _ => if code = 21 then .isDirectory else .notDirectory
  | e@(.invalidArgument _ code _) =>
    if code = 36 || code + 36 = 0 then .nameTooLong else .other (toString e)
  | .userError _ => .notText
  | e => .other (toString e)

/-- Whether an action succeeds. -/
def succeeds (action : IO Unit) : IO Bool := do
  try
    action
    pure true
  catch _ => pure false

/-- The files of the system. -/
def systemFiles : FileSystem IO where
  read path := do
    try
      pure (.ok (← IO.FS.readFile path))
    catch e => pure (.error (.ofSystem e))
  write path text := succeeds (IO.FS.writeFile path text)
  makeDirectory path := succeeds (IO.FS.createDirAll path)

/-- The paths that the environment gives. -/
def systemPaths : IO DefaultPaths := do
  let home ← IO.getEnv "HOME"
  pure (.within (directoryOr ".config" (← IO.getEnv "XDG_CONFIG_HOME") home)
    (directoryOr ".local/share" (← IO.getEnv "XDG_DATA_HOME") home))

end Provenance

open Provenance in
/-- Runs the program with the arguments of the command line. -/
def main (arguments : List String) : IO UInt32 := do
  let result ← execute systemFiles (← systemPaths) arguments
  IO.print result.output
  match result.failure with
  | some message => IO.eprintln ("Error: " ++ message)
  | none => if result.code ≠ 0 then IO.eprintln "error: the command line makes no sense"
  pure (UInt32.ofNat result.code)
