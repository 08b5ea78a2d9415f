import DepsManifest.Policy.Severity
import DepsManifest.Settings.Config
import DepsManifest.Text.Quoted
/-! # Settings

The settings of a run are made from three layers: a profile, a configuration over it, and overrides
over both. A check that the profile does not know starts disabled. Of the variables those among the
overrides count before those of the configuration.

There are three profiles, each with all known checks in its table; they differ in the severity of
findings and in which checks run. Words are looked up when settings are made, so a configuration
with an unknown word is a fault even if the word would have no effect: the severity of a disabled
check, for one. The faults are looked for in a fixed order: the profile, the checks in the order of
their names, the lowest failing severity.
-/
namespace DepsManifest

/-- What is set for a single run. Of two variables with one name the later counts. -/
structure Overrides where
  profile : Option String
  maxFindings : Option Nat
  vars : List (String × Value)

structure Settings where
  policy : Policy
  customVars : NameMap Value

/-- Why settings cannot be made. -/
inductive SettingsFault where
  | unknownProfile (word : String)
  | unknownSeverity (checkId word : String)
  | unknownFailOn (word : String)
  deriving DecidableEq

def SettingsFault.message : SettingsFault → String
  | .unknownProfile word => "unknown profile: " ++ word ++ " (expected strict|warn|compat)"
  | .unknownSeverity checkId word =>
    "invalid severity for " ++ checkId ++ ": unknown severity: " ++ word
      ++ " (expected info|warning|error)"
  | .unknownFailOn word => "unknown fail_on: " ++ word ++ " (expected error|warning)"

/-! ## Profiles -/

def CheckPolicy.knownIds : List String :=
  ["schema.mismatch", "deps.allowed_hosts", "recursedeps.unknown_dep"]

/-- All known checks with one severity, those enabled that a test picks. -/
def CheckPolicy.table (severity : Severity) (enabled : String → Bool) : NameMap CheckPolicy :=
  NameMap.ofList (knownIds.map fun id => (id, ⟨enabled id, severity⟩))

namespace Policy

def defaultProfile : String := "strict"

def ofProfile? (profile : String) : Option Policy :=
  if profile = "strict" then
    some ⟨profile, .error, 200, CheckPolicy.table .error fun _ => true⟩
  else if profile = "warn" then
    some ⟨profile, .error, 200, CheckPolicy.table .warning fun _ => true⟩
  else if profile = "compat" then
    some ⟨profile, .error, 200, CheckPolicy.table .error (· == "schema.mismatch")⟩
  else none

end Policy

/-! ## Words -/

/-- The severity that a configuration names. -/
def Severity.ofSetting? (word : String) : Option Severity :=
  if word = "info" then some .info
  else if word = "warning" ∨ word = "warn" then some .warning
  else if word = "error" then some .error
  else none

/-- The lowest failing severity that a configuration names. -/
def FailOn.ofSetting? (word : String) : Option FailOn :=
  if word = "error" then some .error
  else if word = "warning" ∨ word = "warn" then some .warning
  else none

/-! ## Layers -/

namespace Settings

/-- What a configuration makes of a check's policy. -/
def configured (checkId : String) (c : CheckConfig) (base : CheckPolicy) :
    Except SettingsFault CheckPolicy :=
  let enabled := c.enabled.getD base.enabled
  match c.severity with
  | none => .ok ⟨enabled, base.severity⟩
  | some word =>
    match Severity.ofSetting? word with
    | some severity => .ok ⟨enabled, severity⟩
    | none => .error (.unknownSeverity checkId word)

/-- The policy of a check that a profile does not know. -/
def unknownCheck : CheckPolicy := ⟨false, .info⟩

/-- The policies of checks with what a configuration says about some of them. -/
def withChecks (checks : NameMap CheckPolicy) :
    List (String × CheckConfig) → Except SettingsFault (NameMap CheckPolicy)
  | [] => .ok checks
  | (id, c) :: rest => do
    let policy ← configured id c ((checks.get? id).getD unknownCheck)
    withChecks (checks.insert id policy) rest

/-- The lowest failing severity, which a configuration may name. -/
def failOn (base : FailOn) : Option String → Except SettingsFault FailOn
  | none => .ok base
  | some word =>
    match FailOn.ofSetting? word with
    | some failOn => .ok failOn
    | none => .error (.unknownFailOn word)

/-- The profile that counts. -/
def profile (config : Config) (overrides : Overrides) : String :=
  (overrides.profile <|> config.profile).getD Policy.defaultProfile

/-- The settings that a configuration and overrides make. -/
def resolve (config : Config) (overrides : Overrides) : Except SettingsFault Settings := do
  match Policy.ofProfile? (profile config overrides) with
  | none => throw (.unknownProfile (profile config overrides))
  | some base =>
    let checks ← withChecks base.checks config.checks.entries
    let failOn ← failOn base.failOn config.failOn
    let maxFindings := (overrides.maxFindings <|> config.maxFindings).getD base.maxFindings
    let vars := config.customVars.map CustomVar.toValue
    return {
      policy := ⟨base.profile, failOn, maxFindings, checks⟩
      customVars := vars.union (.ofList overrides.vars) }

end Settings

/-! ## Variables -/

/-- Why a text assigns no variable. -/
inductive AssignmentFault where
  | noEquals (raw : String)
  | emptyName (raw : String)
  deriving DecidableEq

def AssignmentFault.message : AssignmentFault → String
  | .noEquals raw => "invalid var " ++ Text.quoted raw ++ " (expected name=value)"
  | .emptyName raw => "invalid var " ++ Text.quoted raw ++ " (empty name)"

/-- The name and the value of a variable that a text assigns; `True` and `False` are truth
values. -/
def Overrides.assignment (raw : String) : Except AssignmentFault (String × Value) :=
  match Text.splitAtFirst? ['='] raw.toList with
  | none => .error (.noEquals raw)
  | some ([], _) => .error (.emptyName raw)
  | some (name, value) =>
    let text := String.ofList value
    let value : Value :=
      if text = "True" then .bool true else if text = "False" then .bool false else .str text
    .ok (String.ofList name, value)

/-- The variables that texts assign. The first text that assigns none is a fault. -/
def Overrides.assignments (raws : List String) :
    Except AssignmentFault (List (String × Value)) :=
  raws.mapM assignment

end DepsManifest
