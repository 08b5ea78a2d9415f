import DepsManifest.Files.Path
import DepsManifest.Timestamp
/-! # Access to files

A host is what a command needs of the outside: files, directories and a clock. Whatever goes wrong
with a file has a cause and a text, the text being the one that the operating system gives. Causes
that the program tells apart are constructors of their own; all others are `FileFault.other`.

Before a file is written the directories that lead to it are made. The innermost is tried first and
those above it only where it turns out that they are missing. A directory that is already there is
no fault; something else in its place is.
-/
namespace DepsManifest

inductive FileFault where
  | missing
  | occupied
  | notDirectory
  | isDirectory
  | nameTooLong
  | notText
  | other (description : String) (code : Nat)
  deriving DecidableEq, Inhabited

def FileFault.numbered (description : String) (code : Nat) : String :=
  description ++ " (os error " ++ String.ofList (Text.decimal code) ++ ")"

def FileFault.message : FileFault → String
  | .missing => numbered "No such file or directory" 2
  | .occupied => numbered "File exists" 17
  | .notDirectory => numbered "Not a directory" 20
  | .isDirectory => numbered "Is a directory" 21
  | .nameTooLong => numbered "File name too long" 36
  | .notText => "stream did not contain valid UTF-8"
  | .other description code => numbered description code

/-- What a command needs of the outside. -/
structure Host (m : Type → Type) where
  read : String → ExceptT FileFault m String
  write : String → String → ExceptT FileFault m Unit
  makeDirectory : String → ExceptT FileFault m Unit
  isDirectory : String → m Bool
  now : m Timestamp

/-- Why a file is not written: its directory cannot be made, or the file itself not be written. -/
inductive WriteFault where
  | directory (path : String) (fault : FileFault)
  | file (fault : FileFault)
  deriving DecidableEq, Inhabited

def WriteFault.message : WriteFault → String
  | .directory path fault => "create directory: " ++ path ++ ": " ++ fault.message
  | .file fault => fault.message

namespace Host

variable {m : Type → Type} [Monad m]

def ensureDirectory (host : Host m) (path : String) : ExceptT FileFault m Unit :=
  tryCatch (host.makeDirectory path) fun fault => do
    if ← host.isDirectory path then return () else throw fault

/-- Makes the first of some directories; those after it lead to it and are made where they are
missing. -/
def ensureDirectories (host : Host m) : List String → ExceptT FileFault m Unit
  | [] => return ()
  | path :: above =>
    tryCatch (host.ensureDirectory path) fun
      | .missing => do
        host.ensureDirectories above
        host.ensureDirectory path
      | fault => throw fault

/-- Writes a file and the directories that lead to it. -/
def writeFile (host : Host m) (path text : String) : ExceptT WriteFault m Unit := do
  let directories := Path.ancestors path
  ExceptT.adapt (.directory (directories.headD "")) (host.ensureDirectories directories)
  ExceptT.adapt .file (host.write path text)

end Host

end DepsManifest
