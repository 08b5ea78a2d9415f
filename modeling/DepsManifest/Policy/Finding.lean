import DepsManifest.Digest.Sha256
import DepsManifest.Json.Basic
import DepsManifest.Policy.Manifest
import DepsManifest.Policy.Severity
/-! # Findings

What a check reports. Findings are ordered with the most serious first, then by path and line, then
by check, code and message; a finding without a place comes after those with one, and one without a
line after those with one.

The order does not look at the payload, nor at the help or the fingerprint, so two findings can be
equal for it without being the same. Where such findings stand depends on the order in which they
were found. The identity of a finding is apart from its severity and its line: it stays the same
when a manifest is edited elsewhere or a check is graded anew.
-/
namespace DepsManifest

/-- What a check reports. The payload is null if there is none. -/
structure Finding where
  severity : Severity
  checkId : String
  code : String
  message : String
  location : Option Location
  help : Option String
  fingerprint : Option String
  data : Json
  deriving Inhabited

namespace Finding

/-- What identifies a finding: its check, its code, the path of its manifest, and the path of the
value it is about. -/
def identity (checkId code manifestPath valuePath : String) : String :=
  String.intercalate "|" [checkId, code, manifestPath, valuePath]

def fingerprintOf (checkId code manifestPath valuePath : String) : String :=
  Sha256.hexDigest (identity checkId code manifestPath valuePath)

/-- The line of a finding for the order; one without a line comes last. -/
def lineKey (f : Finding) : Nat :=
  ((f.location.bind (·.line)).map UInt32.toNat).getD (UInt32.size - 1)

def pathKey (f : Finding) : String := (f.location.map (·.path)).getD ""

def order : Finding → Finding → Ordering :=
  compareLex (compareOn fun f => f.severity.rank) <|
  compareLex (compareOn fun f => f.location.isNone) <|
  compareLex (compareOn pathKey) <|
  compareLex (compareOn lineKey) <|
  compareLex (compareOn checkId) <|
  compareLex (compareOn code) (compareOn message)

def precedes (f g : Finding) : Bool := (order f g).isLE

end Finding

end DepsManifest
