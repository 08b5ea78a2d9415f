import DepsManifest.Policy.Finding
import DepsManifest.Schema.Manifest
/-! # Checks

Three checks look at a manifest: whether it has the shape of a manifest, whether its dependencies
come from allowed hosts, and whether the dependencies it recurses into exist. A check gives its
findings in the order of the manifest, all with the severity that the policy gives the check.

The second and the third check pass over what has not the shape they need; that is for the first to
report. A dependency without a URL, or with one that names no host, is not disallowed, and without
an entry `allowed_hosts` every host is allowed. An entry that is empty allows none.

Each finding has a fingerprint, the digest of what identifies it, and a payload with the path of the
value that it is about.
-/
namespace DepsManifest

/-- A check of manifests. -/
inductive Check where
  | schemaMismatch
  | allowedHosts
  | unknownDependency
  deriving DecidableEq, Inhabited

namespace Check

def id : Check → String
  | schemaMismatch => "schema.mismatch"
  | allowedHosts => "deps.allowed_hosts"
  | unknownDependency => "recursedeps.unknown_dep"

/-- All checks, in the order in which they run. -/
def all : List Check := [schemaMismatch, allowedHosts, unknownDependency]

end Check

/-! ## The shape -/

def MismatchKind.help : MismatchKind → String
  | .unknownKey => "Remove the key or rename it to one DEPS files support."
  | .missingKey => "Add the required key."
  | .typeMismatch => "Change the value to the expected shape."
  | .lengthMismatch => "Change the value to the expected shape."

def Manifest.mismatchFinding (manifest : Manifest) (severity : Severity) (m : Mismatch) :
    Finding where
  severity := severity
  checkId := Check.schemaMismatch.id
  code := m.kind.code
  message := m.message
  location := some (manifest.locationOf m.rootKey)
  help := some m.kind.help
  fingerprint :=
    some (Finding.fingerprintOf Check.schemaMismatch.id m.kind.code manifest.path m.path)
  data := Json.object [("path", .str m.path), ("expected", .str m.expected),
    ("actual", .str m.actual)]

/-! ## Hosts -/

def Url.endsAuthority (c : Char) : Bool := c == '/' || c == '?' || c == '#'

/-- The host of a URL, without what stands before an `@` or after a colon; nothing without a scheme
or without a host. -/
def Url.host? (url : List Char) : Option (List Char) := do
  let (_, rest) ← Text.splitAtFirst? [':', '/', '/'] url
  let authority := rest.takeWhile fun c => !endsAuthority c
  let host := (Text.afterLast '@' authority).takeWhile (· ≠ ':')
  if host.isEmpty then none else some host

/-- The hosts that a manifest allows; without the entry every host is allowed. -/
def Manifest.allowedHosts? (manifest : Manifest) : Option (List String) := do
  let items ← (← manifest.scope.get? "allowed_hosts").asSequence?
  return items.filterMap Value.asString?

/-- The URL and the host of a dependency that comes from a host that is not allowed. -/
def Dependency.disallowed? (allowed : List String) (d : Dependency) : Option (String × String) := do
  let url ← d.url
  let host ← Url.host? url.toList
  if allowed.contains (String.ofList host) then none else some (url, String.ofList host)

/-- The finding for a dependency from a host that is not allowed. -/
def Manifest.hostFinding (manifest : Manifest) (severity : Severity) (allowed : List String)
    (d : Dependency) (url host : String) : Finding where
  severity := severity
  checkId := Check.allowedHosts.id
  code := "disallowed_host"
  message := "dependency '" ++ d.name ++ "' is fetched from '" ++ host
    ++ "', which is not in allowed_hosts"
  location := some (manifest.locationOf d.rootKey)
  help := some ("Add '" ++ host
    ++ "' to allowed_hosts or fetch the dependency from an allowed host.")
  fingerprint := some
    (Finding.fingerprintOf Check.allowedHosts.id "disallowed_host" manifest.path d.valuePath)
  data := Json.object [("path", .str d.valuePath), ("dependency", .str d.name),
    ("os", (d.os.map Json.str).getD .null), ("url", .str url), ("host", .str host),
    ("allowed_hosts", .arr (allowed.map .str))]

/-! ## Recursion -/

/-- The dependency that an entry of `recursedeps` names: a bare name, or the first of a sequence. -/
def Manifest.recursedName? : Value → Option String
  | .str name => some name
  | .list (item :: _) => item.asString?
  | .tuple (item :: _) => item.asString?
  | _ => none

/-- The entries of `recursedeps` that name no dependency, with their indices. -/
def Manifest.unknownRecursed (manifest : Manifest) : List (String × Nat) :=
  let known := manifest.dependencies.map (·.name)
  let entries := ((manifest.scope.get? "recursedeps").bind Value.asSequence?).getD []
  entries.zipIdx.filterMap fun (entry, index) => do
    let name ← recursedName? entry
    if known.contains name then none else some (name, index)

/-- The finding for an entry of `recursedeps` that names no dependency. -/
def Manifest.recursedFinding (manifest : Manifest) (severity : Severity) (name : String)
    (index : Nat) : Finding :=
  let path := "recursedeps[" ++ String.ofList (Text.decimal index) ++ "]"
  { severity := severity
    checkId := Check.unknownDependency.id
    code := "unknown_dependency"
    message := "recursedeps names '" ++ name ++ "', which is not a dependency"
    location := some (manifest.locationOf "recursedeps")
    help := some "Declare the dependency in deps or deps_os, or drop it from recursedeps."
    fingerprint := some
      (Finding.fingerprintOf Check.unknownDependency.id "unknown_dependency" manifest.path path)
    data := Json.object [("dependency", .str name), ("path", .str path)] }

/-! ## Running checks -/

namespace Check

/-- The findings of a check about a manifest. -/
def findings (severity : Severity) (manifest : Manifest) : Check → List Finding
  | schemaMismatch => manifest.scope.mismatches.map (manifest.mismatchFinding severity)
  | allowedHosts =>
    match manifest.allowedHosts? with
    | none => []
    | some allowed => manifest.dependencies.filterMap fun d =>
        (d.disallowed? allowed).map fun (url, host) =>
          manifest.hostFinding severity allowed d url host
  | unknownDependency =>
    manifest.unknownRecursed.map fun (name, index) => manifest.recursedFinding severity name index

/-- The findings of a check about some manifests, under a policy. -/
def run (p : Policy) (manifests : List Manifest) (c : Check) : List Finding :=
  match p.severityFor c.id with
  | none => []
  | some severity => manifests.flatMap fun manifest => c.findings severity manifest

end Check

end DepsManifest
