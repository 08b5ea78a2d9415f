import DepsManifest.Comparison
import DepsManifest.Policy.Outcome
import DepsManifest.Settings.Basic
import DepsManifest.Value.Json
/-! # Runs

A run is given a configuration and overrides, and does one of three things: it evaluates a manifest,
it checks a manifest against an expected scope, or it applies a policy to manifests. Settings come
first in all three. Evaluation and policies execute a manifest as one; a check is given functions,
so it evaluates the variables of the manifest for them before it executes the text.

A run reads no files; the texts are given to it. It ends with a result or with the first fault in a
fixed order: the configuration, the settings, for a check the expected scope, and then the manifests
in their order. A scope that is not the expected one is a result and no fault.
-/
namespace DepsManifest

/-- What a run is given besides manifests. -/
structure Run where
  configText : String
  overrides : Overrides

/-- The text of a manifest and the path it comes from. -/
structure ManifestText where
  path : String
  text : String
  deriving DecidableEq, Inhabited

/-! ## Expected scopes -/

/-- Why a text describes no expected scope. -/
inductive ExpectedFault where
  | notJson
  | number (error : Value.NumberError)
  | notObject
  deriving DecidableEq

def ExpectedFault.message : ExpectedFault → String
  | .notJson => "parse expected scope json: invalid JSON"
  | .number error => "convert expected scope: " ++ error.message
  | .notObject => "expected scope must be a JSON object"

/-- The expected scope that a JSON text describes. -/
def Scope.ofExpectedText (text : String) : Except ExpectedFault Scope :=
  match Json.read? text with
  | none => .error .notJson
  | some json =>
    match Value.ofJson json with
    | .error error => .error (.number error)
    | .ok v =>
      match Scope.ofValue? v with
      | none => .error .notObject
      | some scope => .ok scope

/-! ## Faults -/

/-- Why a run ends without a result. -/
inductive RunFault where
  | config
  | settings (fault : SettingsFault)
  | expected (fault : ExpectedFault)
  | manifest (path : String) (fault : Located ExecutionFault)

def RunFault.message : RunFault → String
  | .config => "parse config: invalid TOML"
  | .settings fault => "resolve config: " ++ fault.message
  | .expected fault => fault.message
  | .manifest path fault =>
    "evaluate " ++ path ++ ": " ++ inFile path fault.line fault.cause.message

namespace Run

def settings (r : Run) : Except RunFault Settings :=
  match Config.ofText? r.configText with
  | none => .error .config
  | some config => (Settings.resolve config r.overrides).mapError .settings

def execute (s : Settings) (m : ManifestText) : Except RunFault Scope :=
  (executeManifest s.customVars m.text).mapError (.manifest m.path)

def evaluate (r : Run) (m : ManifestText) : Except RunFault Scope := do
  execute (← r.settings) m

/-- The functions of a manifest, whose own variables are evaluated first. -/
def functions (s : Settings) (m : ManifestText) : Except (Located ExecutionFault) Functions :=
  match Module.ofText m.text with
  | .error fault => .error ⟨fault.line, .unreadable fault.cause⟩
  | .ok module =>
    match module.manifestVars with
    | .error fault => .error ⟨fault.line, .evaluation fault.cause⟩
    | .ok vars => .ok (.standard vars s.customVars)

/-- The scope of a manifest, or why it is not what a JSON text says it should be. -/
def check (r : Run) (m : ManifestText) (expectedText : String) :
    Except RunFault (Except CheckFailure Scope) := do
  let s ← r.settings
  let expected ← (Scope.ofExpectedText expectedText).mapError .expected
  let fs ← (functions s m).mapError (.manifest m.path)
  match Module.checkText fs expected m.text with
  | .ok scope => return .ok scope
  | .error (.failure failure) => return .error failure
  | .error (.execution fault) => throw (.manifest m.path fault)

/-- What the policy of a run makes of manifests. -/
def validate (r : Run) (manifests : List ManifestText) : Except RunFault Outcome := do
  let s ← r.settings
  let evaluated ← manifests.mapM fun m => do return Manifest.ofPath m.path (← execute s m)
  return s.policy.apply evaluated

end Run

end DepsManifest
