import DepsManifest.Policy.Outcome
import DepsManifest.Timestamp
/-! # Reports

A report is what a run leaves behind: which tool ran when, the verdict, the findings that were kept,
and a summary. A run that could not be finished leaves a report too, with the one finding that says
why.

The numbers of a summary have 32 bits, and a count is cast to them without a check. The name and the
version of the tool are fixed; both times of a run that could not be finished are the time at which
that turned out.
-/
namespace DepsManifest

/-- The tool that made a report. -/
structure Tool where
  name : String
  version : String
  deriving DecidableEq

structure Summary where
  profile : String
  manifestsScanned : UInt32
  findingsTotal : UInt32
  findingsEmitted : UInt32
  truncation : Option String
  deriving DecidableEq

/-- What a run leaves behind. -/
structure Report where
  tool : Tool
  startedAt : Timestamp
  finishedAt : Timestamp
  verdict : Verdict
  findings : List Finding
  summary : Summary

def Tool.this : Tool := ⟨"depseval", "0.1.0"⟩

def Outcome.summary (o : Outcome) : Summary where
  profile := o.profile
  manifestsScanned := .ofNat o.manifestsScanned
  findingsTotal := .ofNat o.findingsTotal
  findingsEmitted := .ofNat o.findings.length
  truncation := o.truncation

namespace Report

/-- The identifier of the form in which reports are written. -/
def schema : String := "depseval.report.v1"

/-- The report of a run with an outcome. -/
def ofOutcome (startedAt finishedAt : Timestamp) (o : Outcome) : Report where
  tool := .this
  startedAt := startedAt
  finishedAt := finishedAt
  verdict := o.verdict
  findings := o.findings
  summary := o.summary

/-- The finding that says why a run could not be finished. -/
def runtimeFinding (message : String) : Finding where
  severity := .error
  checkId := "tool.runtime"
  code := "runtime_error"
  message := message
  location := none
  help := some "Fix the tool error and re-run depseval."
  fingerprint := none
  data := .null

/-- The report of a run that could not be finished. -/
def ofRuntimeError (now : Timestamp) (message : String) : Report where
  tool := .this
  startedAt := now
  finishedAt := now
  verdict := .fail
  findings := [runtimeFinding message]
  summary := ⟨"unknown", 0, 1, 1, none⟩

end Report

end DepsManifest
