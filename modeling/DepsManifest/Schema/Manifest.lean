import DepsManifest.Schema.Mismatch
import DepsManifest.Scope
/-! # The shape of a manifest

Which names a manifest may define, and the shape of the value of each. No name is required, so the
empty manifest has the shape; a name that is not listed is a mismatch. The fields stand in the order
of their names.

The shape is data. What it means that a value has a shape, and what is reported if it has not, is
decided for all shapes alike (`Shape.mismatches`).
-/
namespace DepsManifest

namespace Shape

def strings : Shape := .listOf .str

def hooks : Shape :=
  .listOf (.record [
    .mk "action" true strings,
    .mk "name" false .str,
    .mk "pattern" false .str])

/-- A manifest. -/
def manifest : Shape :=
  .record [
    .mk "allowed_hosts" false strings,
    .mk "deps" false (.mapOf (.oneOf [.str, .record [.mk "url" true .str]])),
    .mk "deps_os" false (.mapOf (.mapOf (.oneOf [.str, .null]))),
    .mk "hooks" false hooks,
    .mk "hooks_os" false (.mapOf hooks),
    .mk "include_rules" false strings,
    .mk "pre_deps_hooks" false hooks,
    .mk "recursedeps" false (.listOf (.oneOf [.str, .pair .str .str])),
    .mk "skip_child_includes" false strings,
    .mk "specific_include_rules" false (.mapOf strings),
    .mk "target_os" false strings,
    .mk "use_relative_paths" false .bool,
    .mk "vars" false (.mapOf (.oneOf [.str, .bool]))]

end Shape

/-- The mismatches of a scope with the shape of a manifest. -/
def Scope.mismatches (s : Scope) : List Mismatch := Shape.manifest.mismatches "" s.toValue

/-- The text that says that a scope has mismatches. -/
def Mismatch.summary (found : List Mismatch) : String :=
  "schema validation failed: " ++ String.intercalate "; " (found.map Mismatch.message)

end DepsManifest
