import DepsManifest.CommandLine.Perform
import Std.Time.DateTime.Timestamp
/-! # The program

The host is the system that the program runs on. All else is decided elsewhere: what is done with
the words of a command line, what is read and written, and what is said about it. Here the actions
of the system are given as a `Host`, the causes of its errors are told apart, and what a command
ends with is printed.

A file is read as bytes first, so that bytes that are no text are told from a file that is not
there. A directory is known by the error that reading it gives.
-/
namespace DepsManifest

/-- The cause of an error of the system. -/
def FileFault.ofError : IO.Error → FileFault
  | .noFileOrDirectory .. => .missing
  | .alreadyExists .. => .occupied
  | .inappropriateType _ code description =>
    if code = 20 then .notDirectory
    else if code = 21 then .isDirectory
    else .other description code.toNat
  | .interrupted _ code description
  | .invalidArgument _ code description
  | .permissionDenied _ code description
  | .resourceExhausted _ code description
  | .noSuchThing _ code description
  | .otherError code description
  | .resourceBusy code description
  | .resourceVanished code description
  | .unsupportedOperation code description
  | .hardwareFault code description
  | .unsatisfiedConstraints code description
  | .illegalOperation code description
  | .protocolError code description
  | .timeExpired code description => .other description code.toNat
  | error => .other (toString error) 0

namespace Host

/-- An action with the cause of its error. -/
def attempt {α : Type} (action : IO α) : ExceptT FileFault IO α :=
  ExceptT.mk (tryCatch (Except.ok <$> action) fun error => return .error (.ofError error))

def readText (path : String) : ExceptT FileFault IO String := do
  match String.fromUTF8? (← attempt (IO.FS.readBinFile path)) with
  | some text => return text
  | none => throw .notText

/-- The system that the program runs on. -/
def system : Host IO where
  read := readText
  write path text := attempt (IO.FS.writeFile path text)
  makeDirectory path := attempt (IO.FS.createDir path)
  isDirectory path := do
    return match ← (readText path).run with
      | .error .isDirectory => true
      | _ => false
  now := do
    let nanoseconds := (← Std.Time.Timestamp.now).toNanosecondsSinceUnixEpoch.val
    return (Timestamp.afterEpoch? nanoseconds.toNat).getD .epoch

end Host

end DepsManifest

/-- Performs what the words of the command line ask for. -/
def main (words : List String) : IO UInt32 := do
  let ending ← DepsManifest.Host.system.perform (DepsManifest.Invocation.ofWords? words)
  (← IO.getStdout).putStr ending.output
  (← IO.getStderr).putStr ending.errors
  return ending.status.toUInt32
