import DepsManifest.CommandLine.Command
import DepsManifest.Files.Access
import DepsManifest.Report.Annotations
import DepsManifest.Report.Markdown
import DepsManifest.Report.Reader
import DepsManifest.Run
/-! # Performing commands

A command reads its files from a host, and ends with what it prints and an exit status: 0 for
success, 2 for a manifest that fails and for words that are refused, 1 for a fault. Everything a
command does to the outside goes through the `Host`, which is a parameter; so the same definitions
run on the real files and on a `Store`.

Two things are settled here that no other module decides:

  * A configuration that cannot be read is taken for an empty one, whatever the reason.
  * A validation that ends in a fault still leaves a report, if one can be written, with the fault
    as its only finding; the fault is passed on all the same, and what goes wrong with that report
    is not told.
-/
namespace DepsManifest

/-- What a command prints, and its exit status. -/
structure Ending where
  output : String
  errors : String
  status : Nat
  deriving DecidableEq, Inhabited

/-- What a file that is read holds. -/
inductive Source where
  | manifest
  | expected
  | report
  deriving DecidableEq

def Source.description : Source → String
  | .manifest => "manifest"
  | .expected => "expected scope"
  | .report => "report"

/-- What is written to a file. -/
inductive Artifact where
  | report
  | markdown
  | output
  deriving DecidableEq

def Artifact.description : Artifact → String
  | .report => "write report json: write report: "
  | .markdown => "write markdown: write text: "
  | .output => "write markdown output: write text: "

/-- Why a command ends without success or failure. -/
inductive CommandFault where
  | assignment (fault : AssignmentFault)
  | read (source : Source) (path : String) (fault : FileFault)
  | write (artifact : Artifact) (path : String) (fault : WriteFault)
  | run (fault : RunFault)
  | report (fault : ReportFault)

def ReportFault.message : ReportFault → String
  | .notJson => "parse report json: invalid JSON"
  | .unknownSchema schema => "unknown report schema: " ++ schema
  | .malformed => "parse depseval report: unexpected JSON"

def CommandFault.message : CommandFault → String
  | .assignment fault => fault.message
  | .read source path fault =>
    "read " ++ source.description ++ ": " ++ path ++ ": " ++ fault.message
  | .write artifact path fault => artifact.description ++ path ++ ": " ++ fault.message
  | .run fault => fault.message
  | .report fault => fault.message

namespace Ending

def success (output : String) : Ending := ⟨output, "", 0⟩

/-- The end of a command that finds a manifest at fault. -/
def failure (errors : String) : Ending := ⟨"", errors, 2⟩

/-- The end of a command that cannot do its work. -/
def ofFault (fault : CommandFault) : Ending :=
  ⟨"", "depseval error: " ++ fault.message ++ "\n", 1⟩

def unlines (lines : List String) : String := String.join (lines.map (· ++ "\n"))

def ofCheck (manifest : String) : Except CheckFailure Scope → Ending
  | .ok scope =>
    success (unlines
      ["ok: " ++ manifest ++ " (" ++ String.ofList (Text.decimal scope.size) ++ " names)"])
  | .error (.difference d) =>
    failure (unlines [d.message manifest, "  path:     " ++ d.path,
      "  expected: " ++ d.expected.repr, "  actual:   " ++ d.actual.repr])
  | .error (.schema found) => failure (unlines [manifest ++ ": " ++ Mismatch.summary found])

end Ending

namespace Host

variable {m : Type → Type} [Monad m]

/-! ## Files -/

/-- The text of a file. -/
def readSource (host : Host m) (source : Source) (path : String) :
    ExceptT CommandFault m String :=
  ExceptT.adapt (.read source path) (host.read path)

def writeArtifact (host : Host m) (artifact : Artifact) (path text : String) :
    ExceptT CommandFault m Unit :=
  ExceptT.adapt (.write artifact path) (host.writeFile path text)

/-- The text of a configuration, empty if it cannot be read. -/
def configText (host : Host m) (path : String) : m String := do
  match ← (host.read path).run with
  | .ok text => return text
  | .error _ => return ""

/-- The run that options ask for. -/
def run (host : Host m) (options : SharedOptions) : ExceptT CommandFault m Run := do
  let configText ← host.configText options.config
  match Overrides.assignments options.vars with
  | .error fault => throw (.assignment fault)
  | .ok vars => return ⟨configText, ⟨options.profile, options.maxFindings, vars⟩⟩

def manifest (host : Host m) (path : String) : ExceptT CommandFault m ManifestText := do
  return ⟨path, ← host.readSource .manifest path⟩

def report (host : Host m) (path : String) : ExceptT CommandFault m Report := do
  match Report.ofText (← host.readSource .report path) with
  | .error fault => throw (.report fault)
  | .ok report => return report

/-! ## Commands -/

/-- The result of a run, as a step of a command. -/
def finish {α : Type} (result : Except RunFault α) : ExceptT CommandFault m α :=
  ExceptT.mk (return result.mapError .run)

/-- Prints the scope of a manifest. -/
def evaluate (host : Host m) (options : SharedOptions) (path : String) :
    ExceptT CommandFault m Ending := do
  let run ← host.run options
  let scope ← finish (run.evaluate (← host.manifest path))
  return .success (scope.document.indented ++ "\n")

/-- Compares a manifest with an expected scope. -/
def check (host : Host m) (options : SharedOptions) (path expected : String) :
    ExceptT CommandFault m Ending := do
  let run ← host.run options
  let manifest ← host.manifest path
  let expectedText ← host.readSource .expected expected
  return .ofCheck path (← finish (run.check manifest expectedText))

/-- Applies a policy to manifests and writes the report. -/
def writeReport (host : Host m) (options : SharedOptions) (paths : List String) (report : String)
    (markdown : Option String) : ExceptT CommandFault m Ending := do
  let run ← host.run options
  let manifests ← paths.mapM host.manifest
  let startedAt ← host.now
  let outcome ← finish (run.validate manifests)
  let written := Report.ofOutcome startedAt (← host.now) outcome
  host.writeArtifact .report report written.serialized
  match markdown with
  | some path => host.writeArtifact .markdown path written.markdown
  | none => pure ()
  return ⟨"", "", written.verdict.exitStatus⟩

/-- Applies a policy to manifests; a fault is reported too, if it can be. -/
def validate (host : Host m) (options : SharedOptions) (paths : List String) (report : String)
    (markdown : Option String) : ExceptT CommandFault m Ending :=
  tryCatch (host.writeReport options paths report markdown) fun fault => do
    let written := Report.ofRuntimeError (← host.now) fault.message
    tryCatch (host.writeArtifact .report report written.serialized) fun _ => pure ()
    throw fault

/-- Prints a report as Markdown, or writes it to a file. -/
def markdown (host : Host m) (report : String) (output : Option String) :
    ExceptT CommandFault m Ending := do
  let text := (← host.report report).markdown
  match output with
  | none => return .success text
  | some path =>
    host.writeArtifact .output path text
    return .success ""

def annotate (host : Host m) (report : String) (limit : Nat) :
    ExceptT CommandFault m Ending := do
  return .success (Ending.unlines ((← host.report report).annotations.take limit))

def command (host : Host m) (options : SharedOptions) : Command → ExceptT CommandFault m Ending
  | .evaluate manifest => host.evaluate options manifest
  | .validate manifests report markdown => host.validate options manifests report markdown
  | .check manifest expected => host.check options manifest expected
  | .markdown report output => host.markdown report output
  | .annotate report limit => host.annotate report limit

/-- The words that say how to use the program. -/
def usage : String :=
  "Usage: depseval [OPTIONS] <eval|validate|check|md|annotations> [ARGUMENTS]\n"

/-- Performs what an invocation asks for; one that was refused is answered with the usage. -/
def perform (host : Host m) : Option Invocation → m Ending
  | none => return .failure usage
  | some .version => return .success (Tool.this.name ++ " " ++ Tool.this.version ++ "\n")
  | some (.perform options command) => do
    match ← (host.command options command).run with
    | .ok ending => return ending
    | .error fault => return .ofFault fault

end Host

end DepsManifest
