import DepsManifest.Report.Basic
/-! # Reports as Markdown

A report for people: the verdict and the numbers, then one item for each finding, with the value it
is about and what to do about it.

Texts are put in as they are. A line break in a message, a path or a name therefore goes on in the
next line of the document, and so does whatever stands behind it; nothing is escaped. The path of
the value is taken from the payload of a finding, so a report that has been read back is printed in
the same way.
-/
namespace DepsManifest

/-- The word for a severity in front of a finding. -/
def Severity.tag : Severity → String
  | info => "INFO"
  | warning => "WARN"
  | error => "ERROR"

/-- The word for a verdict in a heading. -/
def Verdict.label : Verdict → String
  | pass => "PASS"
  | warn => "WARN"
  | fail => "FAIL"

def Finding.valuePath? (f : Finding) : Option String := (f.data.member? "path").bind Json.asString?

namespace Markdown

def number (n : UInt32) : String := String.ofList (Text.decimal n.toNat)

/-- The place of a finding after its message. -/
def place (l : Location) : String :=
  match l.line with
  | some line => " (`" ++ l.path ++ "`:" ++ number line ++ ")"
  | none => " (`" ++ l.path ++ "`)"

/-- The line of a finding. -/
def headline (f : Finding) : String :=
  "- [" ++ f.severity.tag ++ "] `" ++ f.checkId ++ "` / `" ++ f.code ++ "`: " ++ f.message
    ++ (f.location.map place).getD "" ++ "\n"

/-- The line for the value that a finding is about. Only a finding with a place has one. -/
def valueLine (f : Finding) : String :=
  match f.location, f.valuePath? with
  | some _, some path => "  - value: `" ++ path ++ "`\n"
  | _, _ => ""

/-- The line for what to do about a finding. -/
def helpLine (f : Finding) : String :=
  match f.help with
  | some help => "  - help: " ++ help ++ "\n"
  | none => ""

/-- The lines of a finding. -/
def item (f : Finding) : String := headline f ++ valueLine f ++ helpLine f

/-- The heading and the numbers of a report. -/
def header (r : Report) : String :=
  "# Depseval report\n\n- Verdict: **" ++ r.verdict.label ++ "**\n- Profile: `"
    ++ r.summary.profile ++ "`\n- Manifests: " ++ number r.summary.manifestsScanned
    ++ "\n- Findings: " ++ number r.summary.findingsEmitted ++ " (emitted) / "
    ++ number r.summary.findingsTotal ++ " (total)\n\n"

/-- The note that findings are missing. -/
def note (r : Report) : String :=
  match r.summary.truncation with
  | some reason => "> Note: " ++ reason ++ "\n\n"
  | none => ""

def body (r : Report) : String :=
  if r.findings.isEmpty then "No findings.\n"
  else "## Findings\n\n" ++ String.join (r.findings.map item)

end Markdown

def Report.markdown (r : Report) : String :=
  Markdown.header r ++ Markdown.note r ++ Markdown.body r

end DepsManifest
