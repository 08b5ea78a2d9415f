import DepsManifest.Scope
import DepsManifest.Text.Quoted
/-! # Evaluated manifests

A manifest is a scope with the path it was read from. Paths are written with forward slashes and
without a leading `./`. Of a scope two entries name dependencies: `deps`, and for each operating
system the dicts of `deps_os`. Whatever has another shape is passed over here; it is for the schema
to report.

The dependencies of one manifest are listed in the order in which they are written, those of `deps`
first. A name may occur again under `deps_os`, and then there are two dependencies of that name,
each with its own path. The line of a finding is that of the assignment to the top-level name.
-/
namespace DepsManifest

namespace ManifestPath

/-- The path of a manifest that has none. -/
def unknown : String := "<unknown>"

/-- A path without the leading `./`, however often it stands there. -/
def dropDots : List Char → List Char
  | '.' :: '/' :: cs => dropDots cs
  | cs => cs

def normalized (path : String) : String :=
  let cs := dropDots (Text.replace '\\' ['/'] path.toList)
  if cs.isEmpty then unknown else String.ofList cs

end ManifestPath

/-- The place of a finding. -/
structure Location where
  path : String
  line : Option UInt32
  column : Option UInt32
  deriving DecidableEq, Inhabited

/-- A scope and the path of its manifest. -/
structure Manifest where
  path : String
  scope : Scope
  deriving Inhabited

/-- An entry of `deps` or `deps_os`. An entry of `deps_os` can be without a URL. -/
structure Dependency where
  name : String
  url : Option String
  os : Option String
  rootKey : String
  valuePath : String
  deriving DecidableEq

namespace Dependency

/-- The URL in the value of an entry: the value itself, or what it has under `url`. -/
def url? : Value → Option String
  | .str url => some url
  | .dict entries => ((Dict.mk entries).getString? "url").bind Value.asString?
  | _ => none

/-- The dependency that an entry of `deps` names. -/
def ofPair? : Value × Value → Option Dependency
  | (.str name, value) =>
    some ⟨name, url? value, none, "deps", "deps[" ++ Text.quoted name ++ "]"⟩
  | _ => none

/-- The dependency that an entry for an operating system names. -/
def ofOsPair? (os : String) : Value × Value → Option Dependency
  | (.str name, value) =>
    some ⟨name, url? value, some os, "deps_os",
      "deps_os[" ++ Text.quoted os ++ "][" ++ Text.quoted name ++ "]"⟩
  | _ => none

/-- The dependencies that an entry of `deps_os` names. -/
def ofOs : Value × Value → List Dependency
  | (.str os, .dict entries) => entries.filterMap (ofOsPair? os)
  | _ => []

end Dependency

namespace Manifest

/-- A manifest with a path as it was given. -/
def ofPath (path : String) (scope : Scope) : Manifest := ⟨ManifestPath.normalized path, scope⟩

/-- The place of the assignment that bound a name. -/
def locationOf (m : Manifest) (name : String) : Location :=
  ⟨m.path, (m.scope.lineOf? name).map UInt32.ofNat, none⟩

def entriesOf (m : Manifest) (name : String) : List (Value × Value) :=
  ((m.scope.get? name).bind Value.asDict?).getD []

/-- The dependencies of a manifest: those of `deps` and then those of `deps_os`. -/
def dependencies (m : Manifest) : List Dependency :=
  (m.entriesOf "deps").filterMap Dependency.ofPair?
    ++ (m.entriesOf "deps_os").flatMap Dependency.ofOs

end Manifest

end DepsManifest
