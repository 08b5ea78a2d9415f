import DepsManifest.Policy.Check
/-! # Applying a policy

A policy is applied to manifests: the enabled checks run, their findings are put in order, and no
more than a number of them are kept. The count of all findings is taken before that, the verdict
from what is kept; since the most serious come first, the cap hides no failure unless it is zero.

The order of manifests and of checks decides only where findings that are equal in the order of
findings stand. Applying a policy has no faults: settings have been resolved and manifests executed
before.
-/
namespace DepsManifest

/-- What applying a policy gives. -/
structure Outcome where
  verdict : Verdict
  profile : String
  manifestsScanned : Nat
  findingsTotal : Nat
  findings : List Finding
  truncation : Option String

namespace Policy

def findings (p : Policy) (manifests : List Manifest) : List Finding :=
  (Check.all.flatMap fun c => c.run p manifests).mergeSort Finding.precedes

/-- Why findings are missing, if more were found than are kept. -/
def truncation (p : Policy) (total : Nat) : Option String :=
  if total > p.maxFindings then
    some ("findings truncated to max_findings=" ++ String.ofList (Text.decimal p.maxFindings))
  else none

/-- What applying a policy to some manifests gives. -/
def apply (p : Policy) (manifests : List Manifest) : Outcome :=
  let all := p.findings manifests
  let kept := all.take p.maxFindings
  { verdict := p.failOn.verdict (.of (kept.map (·.severity)))
    profile := p.profile
    manifestsScanned := manifests.length
    findingsTotal := all.length
    findings := kept
    truncation := p.truncation all.length }

end Policy

end DepsManifest
