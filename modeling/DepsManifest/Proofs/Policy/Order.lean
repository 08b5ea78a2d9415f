import DepsManifest.Proofs.Policy.Found
import DepsManifest.Proofs.Sorting
import DepsManifest.Report.Basic
import Mathlib.Data.List.Perm.Basic
/-! # The order of findings and the cap

What the checks find is sorted, stably, and no more than the cap are kept.
`Policy.cap_hides_no_failure` says all that an outcome has of this:

  * the findings are the beginning of the stable sort, as long as the cap or shorter;
  * the number of all findings is kept beside them, and the number of those that are kept;
  * there is a reason for missing findings exactly if some are missing;
  * the verdict is that on all findings, whatever the cap, unless the cap is zero. Under the cap
    zero every run passes.

The last point is the one that takes an argument, as the verdict is taken from what is kept. The
order puts the most serious findings first (`rank_le_of_isLE`), and the most serious one alone
decides the verdict (`FailOn.verdict_of_ordered`); it is there under any cap but zero.
-/
namespace DepsManifest

/-! ## The verdict on severities in order -/

namespace FailOn

theorem counts_error_eq_zero_iff {l : List Severity} :
    (SeverityCounts.of l).error = 0 ↔ .error ∉ l := List.count_eq_zero

theorem counts_warning_eq_zero_iff {l : List Severity} :
    (SeverityCounts.of l).warning = 0 ↔ .warning ∉ l := List.count_eq_zero

theorem verdict_congr (failOn : FailOn) {l l' : List Severity}
    (herror : .error ∈ l ↔ .error ∈ l') (hwarning : .warning ∈ l ↔ .warning ∈ l') :
    failOn.verdict (.of l) = failOn.verdict (.of l') := by
  simp only [verdict, ne_eq, counts_error_eq_zero_iff, counts_warning_eq_zero_iff, herror, hwarning]

theorem verdict_of_error (failOn : FailOn) {l : List Severity} (h : .error ∈ l) :
    failOn.verdict (.of l) = .fail :=
  if_pos fun hzero => counts_error_eq_zero_iff.mp hzero h

/-- Of severities in order, the most serious first, the first alone decides the verdict. -/
theorem verdict_of_ordered (failOn : FailOn) {l : List Severity}
    (h : l.Pairwise fun s t => s.rank ≤ t.rank) :
    failOn.verdict (.of l) = failOn.verdict (.of l.head?.toList) := by
  cases l with
  | nil => rfl
  | cons first rest =>
      have hfirst : ∀ s ∈ rest, first.rank ≤ s.rank := (List.pairwise_cons.mp h).1
      cases first with
      | error =>
          rw [failOn.verdict_of_error List.mem_cons_self]
          exact (failOn.verdict_of_error (List.mem_singleton_self _)).symm
      | warning =>
          refine failOn.verdict_congr ?_ ?_
          · have hnone : .error ∉ rest := fun hmem => absurd (hfirst _ hmem) (by decide)
            simp [hnone]
          · simp
      | info =>
          refine failOn.verdict_congr ?_ ?_
          · have hnone : .error ∉ rest := fun hmem => absurd (hfirst _ hmem) (by decide)
            simp [hnone]
          · have hnone : .warning ∉ rest := fun hmem => absurd (hfirst _ hmem) (by decide)
            simp [hnone]

end FailOn

/-! ## The order of findings -/

namespace Finding

instance : Std.TransCmp order := by
  unfold order
  infer_instance

variable {f g : Finding}

theorem rank_le_of_isLE (h : (order f g).isLE = true) : f.severity.rank ≤ g.severity.rank := by
  have hrank : (compare f.severity.rank g.severity.rank).isLE = true :=
    Ordering.isLE_left_of_isLE_then h
  exact Nat.isLE_compare.mp hrank

/-- Findings that compare equal are about manifests with one path. -/
theorem pathKey_eq_of_order (h : order f g = .eq) : f.pathKey = g.pathKey := by
  simp only [order, compareLex, compareOn, Ordering.then_eq_eq, Std.compare_eq_iff_eq] at h
  exact h.2.2.1

end Finding

namespace Policy

variable (p : Policy) (manifests : List Manifest)

theorem stablySorted_findings :
    StablySorted Finding.order (p.found manifests) (p.findings manifests) :=
  stablySorted_mergeSort (p.found manifests)

variable {p manifests} in
theorem mem_found_of_mem_apply {f : Finding} (h : f ∈ (p.apply manifests).findings) :
    f ∈ p.found manifests :=
  (p.stablySorted_findings manifests).perm.mem_iff.mp (List.mem_of_mem_take h)

/-! ## The cap -/

theorem ordered_severities : ((p.findings manifests).map (·.severity)).Pairwise
    fun s t => s.rank ≤ t.rank :=
  List.pairwise_map.mpr ((p.stablySorted_findings manifests).ordered.imp Finding.rank_le_of_isLE)

/-- The verdict is that on all findings, unless nothing at all is kept. -/
theorem verdict_apply : (p.apply manifests).verdict =
    if p.maxFindings = 0 then .pass
    else p.failOn.verdict (.of ((p.found manifests).map (·.severity))) := by
  have hkept : (p.apply manifests).verdict =
      p.failOn.verdict (.of (((p.findings manifests).map (·.severity)).take p.maxFindings)) := by
    rw [← List.map_take]
    rfl
  have hperm : ((p.findings manifests).map (·.severity)).Perm
      ((p.found manifests).map (·.severity)) := (p.stablySorted_findings manifests).perm.map _
  rw [hkept]
  split
  · rename_i hzero
    rw [hzero, List.take_zero]
    rfl
  · rename_i hcap
    have hordered := p.ordered_severities manifests
    rw [p.failOn.verdict_of_ordered (hordered.sublist (List.take_sublist _ _)), List.head?_take,
      if_neg hcap, ← p.failOn.verdict_of_ordered hordered]
    exact p.failOn.verdict_congr hperm.mem_iff hperm.mem_iff

/-- What is kept of the findings is the beginning of their stable sort, as long as the cap, with the
number of all findings and of those that are kept, and with a reason exactly if some are missing.
But for the cap zero, under which every run passes, the verdict is that on all findings whatever the
cap. -/
theorem cap_hides_no_failure :
    (∃ sorted, StablySorted Finding.order (p.found manifests) sorted ∧
      (p.apply manifests).findings = sorted.take (min p.maxFindings (p.found manifests).length)) ∧
    (p.apply manifests).findingsTotal = (p.found manifests).length ∧
    (p.apply manifests).summary.findingsTotal = .ofNat (p.found manifests).length ∧
    (p.apply manifests).summary.findingsEmitted = .ofNat (p.apply manifests).findings.length ∧
    ((p.apply manifests).truncation.isSome = true ↔ (p.found manifests).length > p.maxFindings) ∧
    ∀ cap, ({ p with maxFindings := cap }.apply manifests).verdict =
      if cap = 0 then .pass
      else p.failOn.verdict (.of ((p.found manifests).map (·.severity))) := by
  have hsorted := p.stablySorted_findings manifests
  have hlength : (p.findings manifests).length = (p.found manifests).length :=
    hsorted.perm.length_eq
  refine ⟨⟨_, hsorted, ?_⟩, hlength, congrArg UInt32.ofNat hlength, rfl, ?_, fun cap => ?_⟩
  · rw [← hlength, ← List.take_eq_take_min]
    rfl
  · show (p.truncation (p.findings manifests).length).isSome = true ↔ _
    rw [hlength, truncation]
    split
    · rename_i hover
      exact iff_of_true rfl hover
    · rename_i hwithin
      exact iff_of_false nofun hwithin
  · exact verdict_apply { p with maxFindings := cap } manifests

end Policy

end DepsManifest
