import DepsManifest.Policy.Check
import DepsManifest.Proofs.Json.Members
import DepsManifest.Report.Markdown
/-! # What a finding is about

A finding is about a value in a manifest: a part of its scope that does not fit, a dependency, or an
entry of `recursedeps`. `Manifest.Concerns` is the list of these three, each with the path of the
value and with the name that it is under.

Every finding of a check has the path of such a value in its data, and it stands where the name is
assigned (`Check.exists_concern`), in particular in the manifest itself (`Check.pathKey_of_mem`).
All that is said elsewhere of the places of findings, of their paths and of the texts in them goes
through this one case analysis, so a new check needs a case here and nowhere else.
-/
namespace DepsManifest

/-- `m.Concerns name path`: in the manifest, a finding can be about the value with the path, which
is under the name. -/
inductive Manifest.Concerns (m : Manifest) : String → String → Prop
  | mismatch {found : Mismatch} : found ∈ m.scope.mismatches → m.Concerns found.rootKey found.path
  | dependency {d : Dependency} : d ∈ m.dependencies → m.Concerns d.rootKey d.valuePath
  | recursed {v : Value} (index : Nat) : m.scope.get? "recursedeps" = some v →
      m.Concerns "recursedeps" ("recursedeps[" ++ String.ofList (Text.decimal index) ++ "]")

namespace Finding

theorem valuePath?_eq {f : Finding} {members : List (String × Json)} {path : String}
    (hdata : f.data = Json.object members) (hnodup : (members.map (·.1)).Nodup)
    (hpath : members.lookup "path" = some (.str path)) : f.valuePath? = some path := by
  rw [valuePath?, hdata, Json.member?_object hnodup, hpath]
  rfl

end Finding

namespace Manifest

variable (manifest : Manifest) (severity : Severity)

theorem valuePath?_mismatchFinding (m : Mismatch) :
    (manifest.mismatchFinding severity m).valuePath? = some m.path :=
  Finding.valuePath?_eq rfl (by simp) rfl

theorem valuePath?_hostFinding (allowed : List String) (d : Dependency) (url host : String) :
    (manifest.hostFinding severity allowed d url host).valuePath? = some d.valuePath :=
  Finding.valuePath?_eq rfl (by simp) rfl

theorem valuePath?_recursedFinding (name : String) (index : Nat) :
    (manifest.recursedFinding severity name index).valuePath? =
      some (Mismatch.indexPath "recursedeps" index) :=
  Finding.valuePath?_eq rfl (by simp) rfl

end Manifest

namespace Check

variable {severity : Severity} {m : Manifest} {c : Check} {f : Finding}

/-- Every finding of a check has the path of a value, and the place where the name of the value is
assigned. -/
theorem exists_concern (h : f ∈ c.findings severity m) : ∃ name path, m.Concerns name path ∧
    f.valuePath? = some path ∧ f.location = some (m.locationOf name) := by
  cases c with
  | schemaMismatch =>
      obtain ⟨found, hfound, rfl⟩ := List.mem_map.mp h
      exact ⟨_, _, .mismatch hfound, m.valuePath?_mismatchFinding severity found, rfl⟩
  | allowedHosts =>
      rw [findings] at h
      split at h
      · cases h
      · obtain ⟨d, hd, hfound⟩ := List.mem_filterMap.mp h
        obtain ⟨_, -, rfl⟩ := Option.map_eq_some_iff.mp hfound
        exact ⟨_, _, .dependency hd, m.valuePath?_hostFinding severity _ d _ _, rfl⟩
  | unknownDependency =>
      obtain ⟨⟨name, index⟩, hentry, rfl⟩ := List.mem_map.mp h
      cases hbound : m.scope.get? "recursedeps" with
      | none =>
          rw [Manifest.unknownRecursed, hbound] at hentry
          cases hentry
      | some v =>
          exact ⟨_, _, .recursed index hbound,
            m.valuePath?_recursedFinding severity name index, rfl⟩

theorem pathKey_of_mem (h : f ∈ c.findings severity m) : f.pathKey = m.path := by
  obtain ⟨name, path, -, -, hlocation⟩ := exists_concern h
  rw [Finding.pathKey, hlocation]
  rfl

end Check

end DepsManifest
