import DepsManifest.NameMap
/-! # Severities and verdicts

Every finding has a severity, and the severities of a run's findings decide its verdict. Errors
always fail a run; warnings fail it if the policy says so; infos never count.

The words of severities and verdicts are those of reports. The words that settings accept are their
own, and stand with the settings. A policy knows checks by name and may name checks that do not
exist; these never run.
-/
namespace DepsManifest

inductive Severity where
  | info
  | warning
  | error
  deriving DecidableEq, Inhabited

namespace Severity

def word : Severity → String
  | info => "info"
  | warning => "warning"
  | error => "error"

/-- The place of a severity in the order of findings, the most serious first. -/
def rank : Severity → Nat
  | error => 0
  | warning => 1
  | info => 2

end Severity

inductive Verdict where
  | pass
  | warn
  | fail
  deriving DecidableEq, Inhabited

namespace Verdict

def word : Verdict → String
  | pass => "pass"
  | warn => "warn"
  | fail => "fail"

/-- The exit status that a verdict stands for. -/
def exitStatus : Verdict → Nat
  | pass => 0
  | warn => 0
  | fail => 2

end Verdict

/-- The lowest severity that fails a run. -/
inductive FailOn where
  | error
  | warning
  deriving DecidableEq, Inhabited

/-- How many findings have each severity. -/
structure SeverityCounts where
  info : Nat
  warning : Nat
  error : Nat
  deriving DecidableEq

def SeverityCounts.of (severities : List Severity) : SeverityCounts :=
  ⟨severities.count .info, severities.count .warning, severities.count .error⟩

/-- The verdict on a run with given counts. -/
def FailOn.verdict (failOn : FailOn) (counts : SeverityCounts) : Verdict :=
  if counts.error ≠ 0 then .fail
  else if counts.warning = 0 then .pass
  else match failOn with
    | .error => .warn
    | .warning => .fail

/-- Whether a check runs, and the severity of its findings. A check that does not run keeps its
severity. -/
structure CheckPolicy where
  enabled : Bool
  severity : Severity
  deriving DecidableEq, Inhabited

/-- Which checks run, how many findings are reported, and which of them fail a run. -/
structure Policy where
  profile : String
  failOn : FailOn
  maxFindings : Nat
  checks : NameMap CheckPolicy

namespace Policy

/-- The severity of a check's findings; nothing if the check does not run. -/
def severityFor (p : Policy) (checkId : String) : Option Severity :=
  match p.checks.get? checkId with
  | some check => if check.enabled then some check.severity else none
  | none => none

/-- The checks that run, in the order of their names. -/
def enabledChecks (p : Policy) : List String :=
  (p.checks.entries.filter (·.2.enabled)).map (·.1)

end Policy

end DepsManifest
