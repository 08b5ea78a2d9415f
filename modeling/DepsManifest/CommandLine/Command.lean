import DepsManifest.CommandLine.Words
/-! # Commands

A command line names one of five commands: `eval`, `validate`, `check`, `md` and `annotations`.
Before the command and after it stand the options that all commands share; where one of them is
given in both places, what is given after the command counts. A variable can be given any number of
times, but the variables before the command do not add to those after it.

Words that make no command are refused as a whole (`Invocation.ofWords?`): an unknown option, a
missing or a second value, a number that does not fit, operands where there should be none. So what
is performed is always a complete `Invocation`, with the default paths filled in. Before the command
`--version` ends the reading where it stands, whatever comes after it.
-/
namespace DepsManifest

structure SharedOptions where
  config : String
  profile : Option String
  maxFindings : Option Nat
  vars : List String
  deriving DecidableEq

inductive Command where
  | evaluate (manifest : String)
  | validate (manifests : List String) (report : String) (markdown : Option String)
  | check (manifest expected : String)
  | markdown (report : String) (output : Option String)
  | annotate (report : String) (limit : Nat)
  deriving DecidableEq

/-- What a command line asks for. -/
inductive Invocation where
  | version
  | perform (options : SharedOptions) (command : Command)
  deriving DecidableEq

/-! ## Forms of options -/

/-- The natural number that a text denotes, with or without a plus sign. -/
def naturalOfText? (text : String) : Option Nat :=
  match text.toList with
  | '+' :: cs => Text.readDecimal? cs
  | cs => Text.readDecimal? cs

/-- The number of findings that a text denotes: 32 bits, where a zero can have a minus sign. -/
def findingsOfText? (text : String) : Option Nat :=
  match text.toList with
  | '-' :: cs => (Text.readDecimal? cs).filter (· == 0)
  | _ => (naturalOfText? text).filter (· < UInt32.size)

/-- The number of lines that a text denotes: 64 bits. -/
def linesOfText? (text : String) : Option Nat := (naturalOfText? text).filter (· < UInt64.size)

def SharedOptions.forms : List OptionForm :=
  [.single "config", .single "profile",
    ⟨"max-findings", none, .single, fun text => (findingsOfText? text).isSome⟩,
    ⟨"var", none, .repeated, fun _ => true⟩, .flag "verbose" (some 'v')]

/-- The forms of the options that can stand before a command. -/
def Invocation.forms : List OptionForm :=
  SharedOptions.forms ++ [⟨"version", some 'V', .final, fun _ => true⟩]

/-- The forms of a command's own options; nothing for an unknown command. -/
def Command.forms? (name : String) : Option (List OptionForm) :=
  if name = "eval" then some []
  else if name = "validate" then
    some [.single "report-out", .flag "write-markdown" none, .single "markdown-out"]
  else if name = "check" then some [.single "expected"]
  else if name = "md" then
    some [.single "report", ⟨"output", some 'o', .single, fun _ => true⟩]
  else if name = "annotations" then
    some [.single "report", ⟨"max", none, .single, fun text => (linesOfText? text).isSome⟩]
  else none

/-! ## Reading -/

/-- The shared options, from what is given before and after a command. -/
def SharedOptions.ofGiven (before after : Given) : SharedOptions :=
  let value? (name : String) : Option String := after.value? name <|> before.value? name
  { config := (value? "config").getD "depseval.toml"
    profile := value? "profile"
    maxFindings := (value? "max-findings").bind findingsOfText?
    vars := if after.has "var" then after.values "var" else before.values "var" }

namespace Command

/-- Where reports are, if nothing else is said. -/
def defaultReport : String := "artifacts/depseval/report.json"

/-- Where Markdown is written, if nothing else is said. -/
def defaultMarkdown : String := "artifacts/depseval/comment.md"

/-- The number of annotations, if nothing else is said. -/
def defaultLimit : Nat := 10

def onlyOperand? (g : Given) : Option String :=
  match g.operands with
  | [operand] => some operand
  | _ => none

def withoutOperands? (g : Given) (command : Command) : Option Command :=
  if g.operands.isEmpty then some command else none

/-- The command of a name with what is given for it. -/
def ofGiven? (name : String) (g : Given) : Option Command :=
  let report := (g.value? "report").getD defaultReport
  if name = "eval" then do return evaluate (← onlyOperand? g)
  else if name = "validate" then
    if g.operands.isEmpty then none
    else
      let markdown := (g.value? "markdown-out").getD defaultMarkdown
      some (validate g.operands ((g.value? "report-out").getD defaultReport)
        (if g.has "write-markdown" then some markdown else none))
  else if name = "check" then do return check (← onlyOperand? g) (← g.value? "expected")
  else if name = "md" then withoutOperands? g (markdown report (g.value? "output"))
  else if name = "annotations" then
    withoutOperands? g (annotate report (((g.value? "max").bind linesOfText?).getD defaultLimit))
  else none

end Command

/-- What words ask for; nothing if they are to be refused. -/
def Invocation.ofWords? (words : List String) : Option Invocation := do
  let (before, rest) ← Given.read? forms true words .empty
  if before.has "version" then return version
  match rest with
  | [] => none
  | name :: words =>
    let (after, _) ← Given.read? (SharedOptions.forms ++ (← Command.forms? name)) false words .empty
    return perform (.ofGiven before after) (← Command.ofGiven? name after)

end DepsManifest
