/-
# LiveBinding.Main -- the command line

Reads the file that the first argument names, runs `Command.run`, and writes
what it leaves behind.
-/
import LiveBinding.Command

open LiveBinding

/-- The reason why a file could not be read, as the system words it. -/
def describeFailure : IO.Error → String
  | .noFileOrDirectory .. => "No such file or directory (os error 2)"
  | .permissionDenied .. => "Permission denied (os error 13)"
  | .inappropriateType _ code details => details ++ " (os error " ++ toString code ++ ")"
  | other => toString other

/-- The content of a file, or the reason why it cannot be read. -/
def readContent (path : String) : IO (Except String String) := do
  try
    match String.fromUTF8? (← IO.FS.readBinFile path) with
    | some text => return .ok text
    | none => return .error "stream did not contain valid UTF-8"
  catch e =>
    return .error (describeFailure e)

def main (arguments : List String) : IO UInt32 := do
  let content ← readContent (arguments.headD "")
  let program ← IO.appPath
  let outcome := Command.run program.toString (fun _ => content) arguments
  IO.print outcome.output
  IO.eprint outcome.errors
  return outcome.code.toUInt32
