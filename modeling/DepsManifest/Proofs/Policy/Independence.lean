import DepsManifest.Proofs.Policy.Findings
import DepsManifest.Proofs.Policy.Order
/-! # Checks do not interfere

A check looks at the manifests and at its own severity, and at nothing that the other checks do.
`Policy.checks_independent` says what that comes to when a policy is changed in one entry.

## Findings

As long as the cap is not reached,

  * a check that is switched off takes its own findings with it and no others, and those that are
    left stay in their order (`findings_switchedOff`);
  * a check with another severity has the same findings with that severity, in their order, and the
    findings of the others stay as they are (`findings_regraded_eq`, `findings_regraded_ne`). The
    findings of different checks may change places, as the order looks at severities first.

What is found changes entry by entry (`found_switchedOff`, `found_regraded`), and the sort goes
along with both changes: it is stable, and among the findings of one check the severity decides
nothing. With the cap reached neither of the two is true, since findings that were cut off come
forward.

## Verdicts

A verdict moves no closer to a pass when a check is switched on, when its severity is raised, or
when warnings come to fail a run; this holds whatever the cap. A verdict looks at nothing but
severities (`verdict_eq`), so it is enough that each finding is found again at least as serious
(`FailOn.fromPass_verdict_le`). That is what becomes of the findings when a policy gets stricter
(`Policy.NoStricter`), and the cap does not come in between: it decides a verdict only if it is zero
(`Policy.verdict_apply`).
-/
namespace DepsManifest

/-! ## Severities of findings -/

namespace Finding

/-- A finding with another severity. -/
def withSeverity (severity : Severity) (f : Finding) : Finding := { f with severity := severity }

def regraded (id : String) (severity : Severity) (f : Finding) : Finding :=
  if f.checkId = id then f.withSeverity severity else f

variable {id : String} {severity : Severity}

theorem checkId_regraded (f : Finding) : (f.regraded id severity).checkId = f.checkId := by
  unfold regraded
  split <;> rfl

theorem filter_ne_regraded (l : List Finding) :
    (l.map (regraded id severity)).filter (fun f => decide (f.checkId ≠ id)) =
      l.filter fun f => decide (f.checkId ≠ id) := by
  rw [List.filter_map]
  simp only [Function.comp_def, checkId_regraded]
  refine (List.map_congr_left fun f hf => ?_).trans (List.map_id _)
  exact if_neg (of_decide_eq_true (List.mem_filter.mp hf).2)

theorem filter_eq_regraded (l : List Finding) :
    (l.map (regraded id severity)).filter (fun f => decide (f.checkId = id)) =
      (l.filter fun f => decide (f.checkId = id)).map (withSeverity severity) := by
  rw [List.filter_map]
  simp only [Function.comp_def, checkId_regraded]
  refine List.map_congr_left fun f hf => ?_
  exact if_pos (of_decide_eq_true (List.mem_filter.mp hf).2)

theorem order_withSeverity {f g : Finding} (h : f.severity = g.severity) (severity : Severity) :
    order (f.withSeverity severity) (g.withSeverity severity) = order f g := by
  have hrank : compare f.severity.rank g.severity.rank = .eq := by
    rw [h]
    exact Std.ReflOrd.compare_self
  have hsame :
      compare (f.withSeverity severity).severity.rank (g.withSeverity severity).severity.rank =
      .eq := Std.ReflOrd.compare_self
  simp only [order, compareLex, compareOn, hrank, hsame]
  rfl

end Finding

namespace Check

variable {severity : Severity} {m : Manifest} {c : Check} {f : Finding}

theorem findings_withSeverity (severity severity' : Severity) (m : Manifest) (c : Check) :
    c.findings severity' m = (c.findings severity m).map (Finding.withSeverity severity') := by
  cases c with
  | schemaMismatch =>
      rw [findings, findings, List.map_map]
      rfl
  | allowedHosts =>
      rw [findings, findings]
      split
      · rfl
      · rw [List.map_filterMap]
        simp only [Option.map_map]
        rfl
  | unknownDependency =>
      rw [findings, findings, List.map_map]
      rfl

theorem severity_of_mem (h : f ∈ c.findings severity m) : f.severity = severity := by
  rw [findings_withSeverity severity severity] at h
  obtain ⟨_, -, rfl⟩ := List.mem_map.mp h
  rfl

theorem checkId_of_mem_run {p : Policy} {manifests : List Manifest} (h : f ∈ c.run p manifests) :
    f.checkId = c.id := by
  obtain ⟨_, -, _, -, hf⟩ := mem_run_iff.mp h
  exact (id_and_code_of_mem hf).1

end Check

/-! ## Policies that differ in one check -/

namespace Policy

/-- A policy with another entry for a check. -/
def withCheck (p : Policy) (id : String) (check : CheckPolicy) : Policy :=
  { p with checks := p.checks.insert id check }

variable {p p' : Policy} {manifests : List Manifest} {id : String} {check : CheckPolicy}

theorem severityFor_withCheck (p : Policy) (id : String) (check : CheckPolicy) (other : String) :
    (p.withCheck id check).severityFor other =
      if other = id then if check.enabled then some check.severity else none
      else p.severityFor other := by
  unfold severityFor withCheck
  rw [NameMap.get?_insert]
  by_cases h : other = id
  · rw [if_pos h, if_pos h]
  · rw [if_neg h, if_neg h]

theorem severityFor_of_get? (h : p.checks.get? id = some check) :
    p.severityFor id = if check.enabled then some check.severity else none := by
  rw [severityFor, h]

theorem severityFor_checkId {f : Finding} (h : f ∈ p.found manifests) :
    p.severityFor f.checkId = some f.severity := by
  obtain ⟨c, severity, hseverity, m, -, hf⟩ := mem_found_iff.mp h
  rw [(Check.id_and_code_of_mem hf).1, hseverity, Check.severity_of_mem hf]

theorem run_withCheck_of_ne {c : Check} (check : CheckPolicy) (h : c.id ≠ id) :
    c.run (p.withCheck id check) manifests = c.run p manifests := by
  rw [Check.run, severityFor_withCheck, if_neg h, Check.run]

theorem run_switchedOff (p : Policy) (manifests : List Manifest) (c : Check) (severity : Severity) :
    c.run (p.withCheck c.id ⟨false, severity⟩) manifests = [] := by
  rw [Check.run, severityFor_withCheck, if_pos rfl]
  rfl

theorem run_regraded {c : Check} (h : p.checks.get? c.id = some check) (manifests : List Manifest)
    (severity : Severity) : c.run (p.withCheck c.id ⟨check.enabled, severity⟩) manifests =
      (c.run p manifests).map (Finding.withSeverity severity) := by
  rw [Check.run, Check.run, severityFor_withCheck, if_pos rfl, severityFor_of_get? h]
  cases check.enabled with
  | false => simp
  | true =>
      simp only [if_true, List.map_flatMap]
      exact List.flatMap_congr fun m _ => Check.findings_withSeverity ..

/-- With a check switched off, what the other checks find is left. -/
theorem found_switchedOff (p : Policy) (manifests : List Manifest) (id : String)
    (severity : Severity) : (p.withCheck id ⟨false, severity⟩).found manifests =
      (p.found manifests).filter fun f => decide (f.checkId ≠ id) := by
  rw [found, found, List.filter_flatMap]
  refine List.flatMap_congr fun c _ => ?_
  by_cases hid : c.id = id
  · subst hid
    rw [run_switchedOff]
    refine (List.filter_eq_nil_iff.mpr fun f hf hkept => ?_).symm
    exact of_decide_eq_true hkept (Check.checkId_of_mem_run hf)
  · rw [run_withCheck_of_ne _ hid]
    refine (List.filter_eq_self.mpr fun f hf => decide_eq_true ?_).symm
    rwa [Check.checkId_of_mem_run hf]

/-- With another severity for a check, the same is found, what the check finds with that severity.
-/
theorem found_regraded (h : p.checks.get? id = some check) (manifests : List Manifest)
    (severity : Severity) : (p.withCheck id ⟨check.enabled, severity⟩).found manifests =
      (p.found manifests).map (Finding.regraded id severity) := by
  rw [found, found, List.map_flatMap]
  refine List.flatMap_congr fun c _ => ?_
  by_cases hid : c.id = id
  · subst hid
    rw [run_regraded h]
    exact List.map_congr_left fun f hf => (if_pos (Check.checkId_of_mem_run hf)).symm
  · rw [run_withCheck_of_ne _ hid]
    refine (List.map_id _).symm.trans (List.map_congr_left fun f hf => (if_neg ?_).symm)
    rwa [Check.checkId_of_mem_run hf]

/-! ## Findings in order -/

theorem findings_apply (hcap : (p.apply manifests).findingsTotal ≤ p.maxFindings) :
    (p.apply manifests).findings = p.findings manifests :=
  List.take_of_length_le hcap

theorem findingsTotal_apply (p : Policy) (manifests : List Manifest) :
    (p.apply manifests).findingsTotal = (p.found manifests).length :=
  (p.stablySorted_findings manifests).perm.length_eq

/-- With a check switched off, the findings are those of the other checks, in the order in which
they were. -/
theorem findings_switchedOff (p : Policy) (manifests : List Manifest) (id : String)
    (severity : Severity) : (p.withCheck id ⟨false, severity⟩).findings manifests =
      (p.findings manifests).filter fun f => decide (f.checkId ≠ id) := by
  have hoff := (p.withCheck id ⟨false, severity⟩).stablySorted_findings manifests
  rw [found_switchedOff] at hoff
  exact hoff.unique ((p.stablySorted_findings manifests).filter _) (.refl _) fun _ => rfl

section

variable (h : p.checks.get? id = some check) (manifests) (severity : Severity)

include h

theorem findings_regraded_ne :
    ((p.withCheck id ⟨check.enabled, severity⟩).findings manifests).filter
        (fun f => decide (f.checkId ≠ id)) =
      (p.findings manifests).filter fun f => decide (f.checkId ≠ id) := by
  have hchanged :=
    ((p.withCheck id ⟨check.enabled, severity⟩).stablySorted_findings manifests).filter
    fun f => decide (f.checkId ≠ id)
  rw [found_regraded h, Finding.filter_ne_regraded] at hchanged
  exact hchanged.unique ((p.stablySorted_findings manifests).filter _) (.refl _) fun _ => rfl

theorem findings_regraded_eq :
    ((p.withCheck id ⟨check.enabled, severity⟩).findings manifests).filter
        (fun f => decide (f.checkId = id)) =
      ((p.findings manifests).filter fun f => decide (f.checkId = id)).map
        (Finding.withSeverity severity) := by
  have hchanged :=
    ((p.withCheck id ⟨check.enabled, severity⟩).stablySorted_findings manifests).filter
    fun f => decide (f.checkId = id)
  rw [found_regraded h, Finding.filter_eq_regraded] at hchanged
  have hown := (p.stablySorted_findings manifests).filter fun f => decide (f.checkId = id)
  refine hchanged.unique (hown.map fun f hf g hg => ?_) (.refl _) fun _ => rfl
  obtain ⟨hf, hfid⟩ := List.mem_filter.mp hf
  obtain ⟨hg, hgid⟩ := List.mem_filter.mp hg
  have hsame : some f.severity = some g.severity := by
    rw [← severityFor_checkId hf, ← severityFor_checkId hg, of_decide_eq_true hfid,
      of_decide_eq_true hgid]
  exact Finding.order_withSeverity (Option.some.inj hsame) severity

end

end Policy

/-! ## Verdicts -/

/-- How far a verdict is from a pass. -/
def Verdict.fromPass : Verdict → Nat
  | pass => 0
  | warn => 1
  | fail => 2

theorem Verdict.fromPass_le_fail (v : Verdict) : v.fromPass ≤ Verdict.fail.fromPass := by
  cases v <;> decide

namespace FailOn

def onWarnings : FailOn → Verdict
  | error => .warn
  | warning => .fail

theorem verdict_eq (failOn : FailOn) (l : List Severity) : failOn.verdict (.of l) =
    if .error ∈ l then .fail else if .warning ∈ l then failOn.onWarnings else .pass := by
  by_cases herror : .error ∈ l
  · rw [if_pos herror, failOn.verdict_of_error herror]
  · unfold verdict
    rw [if_neg herror, if_neg (not_not.mpr (counts_error_eq_zero_iff.mpr herror))]
    by_cases hwarning : .warning ∈ l
    · rw [if_pos hwarning, if_neg (mt counts_warning_eq_zero_iff.mp (not_not.mpr hwarning))]
      rfl
    · rw [if_neg hwarning, if_pos (counts_warning_eq_zero_iff.mpr hwarning)]

/-- A verdict moves no closer to a pass if every severity is there again or a more serious one, and
if warnings that failed a run still fail it. -/
theorem fromPass_verdict_le {failOn failOn' : FailOn} {l l' : List Severity}
    (hfailOn : failOn = .warning → failOn' = .warning)
    (h : ∀ s ∈ l, ∃ s' ∈ l', s'.rank ≤ s.rank) :
    (failOn.verdict (.of l)).fromPass ≤ (failOn'.verdict (.of l')).fromPass := by
  have herrors : .error ∈ l → .error ∈ l' := by
    intro herror
    obtain ⟨s, hs, hrank⟩ := h _ herror
    cases s with
    | error => exact hs
    | warning => exact absurd hrank (by decide)
    | info => exact absurd hrank (by decide)
  have hwarnings : .warning ∈ l → .error ∈ l' ∨ .warning ∈ l' := by
    intro hwarning
    obtain ⟨s, hs, hrank⟩ := h _ hwarning
    cases s with
    | error => exact .inl hs
    | warning => exact .inr hs
    | info => exact absurd hrank (by decide)
  rw [verdict_eq, verdict_eq failOn']
  by_cases hfail : .error ∈ l'
  · rw [if_pos hfail]
    exact Verdict.fromPass_le_fail _
  · rw [if_neg hfail, if_neg (mt herrors hfail)]
    by_cases hwarning : .warning ∈ l
    · rw [if_pos hwarning, if_pos ((hwarnings hwarning).resolve_left hfail)]
      cases failOn with
      | error => cases failOn' <;> decide
      | warning =>
          cases hfailOn rfl
          exact Nat.le_refl _
    · rw [if_neg hwarning]
      exact Nat.zero_le _

end FailOn

namespace Policy

/-- A policy is no stricter than another: its checks run under the other too and are at least as
serious there, and warnings fail a run under the other if they do under it. -/
structure NoStricter (p p' : Policy) : Prop where
  severityFor : ∀ id severity, p.severityFor id = some severity →
    ∃ severity', p'.severityFor id = some severity' ∧ severity'.rank ≤ severity.rank
  failOn : p.failOn = .warning → p'.failOn = .warning
  maxFindings : p.maxFindings = p'.maxFindings

variable {p p' : Policy}

theorem NoStricter.fromPass_verdict_le (h : p.NoStricter p') (manifests : List Manifest) :
    (p.apply manifests).verdict.fromPass ≤ (p'.apply manifests).verdict.fromPass := by
  rw [verdict_apply, verdict_apply, h.maxFindings]
  split
  · exact Nat.le_refl _
  · refine FailOn.fromPass_verdict_le h.failOn fun s hs => ?_
    obtain ⟨f, hf, rfl⟩ := List.mem_map.mp hs
    obtain ⟨c, severity, hseverity, m, hm, hc⟩ := mem_found_iff.mp hf
    obtain ⟨severity', hseverity', hrank⟩ := h.severityFor _ _ hseverity
    have hfound : f.withSeverity severity' ∈ p'.found manifests := by
      refine mem_found_iff.mpr ⟨c, severity', hseverity', m, hm, ?_⟩
      rw [Check.findings_withSeverity severity]
      exact List.mem_map_of_mem hc
    rw [Check.severity_of_mem hc]
    exact ⟨severity', List.mem_map_of_mem (f := (·.severity)) hfound, hrank⟩

/-- Another entry for a check makes a policy no less strict, if the check runs under it at least as
seriously as before, or did not run before. -/
theorem noStricter_withCheck {id : String} {check : CheckPolicy}
    (h : ∀ severity, p.severityFor id = some severity →
      check.enabled = true ∧ check.severity.rank ≤ severity.rank) :
      p.NoStricter (p.withCheck id check) := by
  refine ⟨fun other severity hseverity => ?_, fun hfailOn => hfailOn, rfl⟩
  rw [severityFor_withCheck]
  by_cases hid : other = id
  · subst hid
    obtain ⟨hon, hrank⟩ := h severity hseverity
    rw [if_pos rfl, if_pos hon]
    exact ⟨check.severity, rfl, hrank⟩
  · rw [if_neg hid]
    exact ⟨severity, hseverity, Nat.le_refl _⟩

/-- Checks do not interfere. As long as the cap is not reached, a check that is switched off takes
its own findings with it and no others, and a check with another severity has the same findings with
that severity; the others stay as they are, and all of them in the order in which they were. And
whatever the cap, a verdict moves no closer to a pass when a check is switched on, when its severity
is raised, or when warnings come to fail a run. -/
theorem checks_independent (p : Policy) (manifests : List Manifest) (id : String) :
    ((p.apply manifests).findingsTotal ≤ p.maxFindings →
      (∀ severity, ((p.withCheck id ⟨false, severity⟩).apply manifests).findings =
        (p.apply manifests).findings.filter fun f => decide (f.checkId ≠ id)) ∧
      ∀ check severity, p.checks.get? id = some check →
        ((p.withCheck id ⟨check.enabled, severity⟩).apply manifests).findings.filter
            (fun f => decide (f.checkId ≠ id)) =
          ((p.apply manifests).findings.filter fun f => decide (f.checkId ≠ id)) ∧
        ((p.withCheck id ⟨check.enabled, severity⟩).apply manifests).findings.filter
            (fun f => decide (f.checkId = id)) =
          ((p.apply manifests).findings.filter fun f => decide (f.checkId = id)).map
            (Finding.withSeverity severity)) ∧
    (∀ severity, p.severityFor id = none → (p.apply manifests).verdict.fromPass ≤
      ((p.withCheck id ⟨true, severity⟩).apply manifests).verdict.fromPass) ∧
    (∀ check severity, p.checks.get? id = some check → severity.rank ≤ check.severity.rank →
      (p.apply manifests).verdict.fromPass ≤
        ((p.withCheck id ⟨check.enabled, severity⟩).apply manifests).verdict.fromPass) ∧
    ({ p with failOn := .error }.apply manifests).verdict.fromPass ≤
      ({ p with failOn := .warning }.apply manifests).verdict.fromPass := by
  refine ⟨fun hcap => ⟨fun severity => ?_, fun check severity hcheck => ?_⟩,
    fun severity hoff => ?_, fun check severity hcheck hrank => ?_, ?_⟩
  · have hfewer : ((p.withCheck id ⟨false, severity⟩).apply manifests).findingsTotal ≤
        (p.apply manifests).findingsTotal := by
      rw [findingsTotal_apply, findingsTotal_apply, found_switchedOff]
      exact List.length_filter_le _ _
    rw [findings_apply hcap, findings_apply (Nat.le_trans hfewer hcap)]
    exact findings_switchedOff p manifests id severity
  · have hsame : ((p.withCheck id ⟨check.enabled, severity⟩).apply manifests).findingsTotal =
        (p.apply manifests).findingsTotal := by
      rw [findingsTotal_apply, findingsTotal_apply, found_regraded hcheck, List.length_map]
    rw [findings_apply hcap, findings_apply (Nat.le_trans (Nat.le_of_eq hsame) hcap)]
    exact ⟨findings_regraded_ne manifests hcheck severity,
      findings_regraded_eq manifests hcheck severity⟩
  · have hstricter : p.NoStricter (p.withCheck id ⟨true, severity⟩) := by
      refine noStricter_withCheck fun before hbefore => ?_
      rw [hoff] at hbefore
      cases hbefore
    exact hstricter.fromPass_verdict_le manifests
  · have hstricter : p.NoStricter (p.withCheck id ⟨check.enabled, severity⟩) := by
      refine noStricter_withCheck fun before hbefore => ?_
      rw [severityFor_of_get? hcheck] at hbefore
      split at hbefore
      · rename_i hon
        cases hbefore
        exact ⟨hon, hrank⟩
      · cases hbefore
    exact hstricter.fromPass_verdict_le manifests
  · have hstricter : { p with failOn := .error }.NoStricter { p with failOn := .warning } :=
      ⟨fun _ severity hseverity => ⟨severity, hseverity, Nat.le_refl _⟩, nofun, rfl⟩
    exact hstricter.fromPass_verdict_le manifests

/-- The check of hosts with infos in place of errors leaves what the other check finds, though that
comes first then. With errors from that check, or with the check of schemas too, the verdict is no
closer to a pass. -/
theorem checks_independent_reordered :
    (strayPolicy.found [strayManifest]).map (·.checkId) =
        ["deps.allowed_hosts", "recursedeps.unknown_dep"] ∧
      (strayPolicy.apply [strayManifest]).findingsTotal ≤ strayPolicy.maxFindings ∧
      strayPolicy.checks.get? "deps.allowed_hosts" = some ⟨true, .error⟩ ∧
      (((strayPolicy.withCheck "deps.allowed_hosts" ⟨true, .info⟩).apply
          [strayManifest]).findings.filter
            fun f => decide (f.checkId ≠ "deps.allowed_hosts")) =
        ((strayPolicy.apply [strayManifest]).findings.filter
          fun f => decide (f.checkId ≠ "deps.allowed_hosts")) ∧
      strayPolicy.checks.get? "recursedeps.unknown_dep" = some ⟨true, .warning⟩ ∧
      Severity.error.rank ≤ Severity.warning.rank ∧
      (strayPolicy.apply [strayManifest]).verdict.fromPass ≤
        ((strayPolicy.withCheck "recursedeps.unknown_dep" ⟨true, .error⟩).apply
          [strayManifest]).verdict.fromPass ∧
      strayPolicy.severityFor Check.schemaMismatch.id = none ∧
      (strayPolicy.apply [strayManifest]).verdict.fromPass ≤
        ((strayPolicy.withCheck Check.schemaMismatch.id ⟨true, .info⟩).apply
          [strayManifest]).verdict.fromPass := by
  have hcap : (strayPolicy.apply [strayManifest]).findingsTotal ≤ strayPolicy.maxFindings := by
    rw [findingsTotal_apply]
    decide
  have hhosts : strayPolicy.checks.get? "deps.allowed_hosts" = some ⟨true, .error⟩ := by decide
  have hrecursed :
      strayPolicy.checks.get? "recursedeps.unknown_dep" = some ⟨true, .warning⟩ := by decide
  have hrank : Severity.error.rank ≤ Severity.warning.rank := by decide
  have hoff : strayPolicy.severityFor Check.schemaMismatch.id = none := by decide
  obtain ⟨hfindings, -, -, -⟩ := checks_independent strayPolicy [strayManifest] "deps.allowed_hosts"
  obtain ⟨-, -, hraised, -⟩ :=
    checks_independent strayPolicy [strayManifest] "recursedeps.unknown_dep"
  obtain ⟨-, hon, -, -⟩ := checks_independent strayPolicy [strayManifest] Check.schemaMismatch.id
  exact ⟨by decide, hcap, hhosts, ((hfindings hcap).2 _ .info hhosts).1, hrecursed, hrank,
    hraised ⟨true, .warning⟩ .error hrecursed hrank, hoff, hon .info hoff⟩

end Policy

end DepsManifest
