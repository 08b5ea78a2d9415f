import DepsManifest.Policy.Outcome
/-! # What the checks find

The checks give their findings one check after the other, and each that is enabled goes through the
manifests in turn. `Policy.found` is the list of all of them in that order, before it is sorted and
cut off. It is not what an outcome shows, but what is said of outcomes is said of it first: which
findings there are (`Policy.mem_found_iff`), which of them belong to a check (`Check.mem_run_iff`),
and how many.

A check that is not enabled gives nothing. The severity of a check is one for all of its findings,
whatever manifest they are about.
-/
namespace DepsManifest

namespace Check

theorem mem_all (c : Check) : c ∈ all := by
  cases c <;> decide

variable {p : Policy} {manifests : List Manifest} {c : Check}

theorem run_eq_flatMap {severity : Severity} (h : p.severityFor c.id = some severity) :
    c.run p manifests = manifests.flatMap (c.findings severity) := by
  rw [run, h]

theorem mem_run_iff {f : Finding} : f ∈ c.run p manifests ↔
    ∃ severity, p.severityFor c.id = some severity ∧
      ∃ m ∈ manifests, f ∈ c.findings severity m := by
  cases hseverity : p.severityFor c.id with
  | none =>
      rw [run, hseverity]
      exact ⟨nofun, nofun⟩
  | some severity =>
      rw [run_eq_flatMap hseverity, List.mem_flatMap]
      constructor
      · intro h
        exact ⟨severity, rfl, h⟩
      · rintro ⟨_, hsame, h⟩
        cases hsame
        exact h

end Check

namespace Policy

/-- All findings about some manifests as the checks give them. -/
def found (p : Policy) (manifests : List Manifest) : List Finding :=
  Check.all.flatMap fun c => c.run p manifests

/-- What is found is what the enabled checks find in each of the manifests. -/
theorem mem_found_iff {p : Policy} {manifests : List Manifest} {f : Finding} :
    f ∈ p.found manifests ↔ ∃ c severity, Policy.severityFor p (Check.id c) = some severity ∧
      ∃ m ∈ manifests, f ∈ c.findings severity m := by
  rw [found, List.mem_flatMap]
  refine exists_congr fun c => ?_
  rw [and_iff_right c.mem_all, Check.mem_run_iff]

end Policy

end DepsManifest
