import DepsManifest.Proofs.Policy.Findings
import DepsManifest.Proofs.Run
/-! # Three uses of a manifest

Evaluating a manifest, checking it and applying a policy to it are three programs. Each executes the
manifest in its own way, and one of them in two steps. That they agree is `Run.uses_agree`:

  * **faults** — the three stop at the same fault, or none of them stops. The executions are the
    same function of the run (`Run.check_eq_map`, `Run.validate_eq_map`), so a fault passes through
    unchanged;
  * **outcomes** — where there is a scope, a check has three of them, and each is said by what it
    compares: it passes, it finds the difference that `Value.compare` finds, or it finds the
    mismatches of the scope. The comparison comes first, so mismatches are named only where there is
    no difference;
  * **mismatches** — those that a check names are the findings of a policy that looks at the shape
    of scopes, each as often as the other says it (`Policy.perm_mismatches`).

## How the mismatches are compared

A mismatch and its finding are different records, and what they have in common is their `Complaint`:
the code, and from the data the path with what is expected and what is there. The statement is about
multisets, as a policy puts its findings in an order of its own; and it takes a policy that did not
cut findings off, since beyond its limit a report says nothing of single findings.

The hypothesis that the expected text is one of a scope is needed only for a check: the other two
uses do not read it, and a check without it stops at a fault that is none of the manifest's.
-/
namespace DepsManifest

/-! ## Mismatches and their findings -/

/-- What is said of a part of a scope that does not fit: the code, and from the data the path, what
is expected and what is there. -/
abbrev Complaint : Type := String × Option Json × Option Json × Option Json

def Mismatch.complaint (m : Mismatch) : Complaint :=
  (m.kind.code, some (.str m.path), some (.str m.expected), some (.str m.actual))

def Finding.complaint (f : Finding) : Complaint :=
  (f.code, f.data.member? "path", f.data.member? "expected", f.data.member? "actual")

/-- What an outcome reports of a check. -/
def Outcome.complaints (outcome : Outcome) (c : Check) : List Complaint :=
  (outcome.findings.filter fun f => decide (f.checkId = c.id)).map Finding.complaint

theorem Manifest.complaint_mismatchFinding (manifest : Manifest) (severity : Severity)
    (m : Mismatch) : (manifest.mismatchFinding severity m).complaint = m.complaint := by
  have hmember : ∀ name, (manifest.mismatchFinding severity m).data.member? name =
      [("path", Json.str m.path), ("expected", .str m.expected),
        ("actual", .str m.actual)].lookup name := Json.member?_object (by simp)
  simp only [Finding.complaint, hmember]
  rfl

/-- A policy that looks at the shape reports every mismatch of a manifest, and each as often as it
is found. -/
theorem Policy.perm_mismatches {p : Policy} {severity : Severity} {manifest : Manifest}
    (hseverity : p.severityFor Check.schemaMismatch.id = some severity)
    (hcap : (p.apply [manifest]).findingsTotal ≤ p.maxFindings) :
    ((p.apply [manifest]).complaints .schemaMismatch).Perm
      (manifest.scope.mismatches.map Mismatch.complaint) := by
  have hkept := perm_filter_findings .schemaMismatch (fun c' f => Check.checkId_eq_iff) hcap
  rw [Check.run_eq_flatMap hseverity, List.flatMap_singleton, Check.findings] at hkept
  have hfound := hkept.map Finding.complaint
  rw [List.map_map] at hfound
  have hsame : Finding.complaint ∘ manifest.mismatchFinding severity = Mismatch.complaint :=
    funext (manifest.complaint_mismatchFinding severity)
  rwa [hsame] at hfound

/-! ## Outcomes of a check -/

namespace Scope

variable {expected actual scope : Scope}

theorem checkAgainst_eq_ok_iff : expected.checkAgainst actual = .ok scope ↔
    scope = actual ∧ expected.toValue.compare "" actual.toValue = .ok () ∧
      actual.mismatches = [] := by
  rw [checkAgainst]
  cases expected.toValue.compare "" actual.toValue with
  | error difference => simp
  | ok _ =>
      by_cases hvalid : actual.mismatches = []
      · simp [hvalid, eq_comm]
      · simp [hvalid]

theorem checkAgainst_eq_difference_iff {d : Difference} :
    expected.checkAgainst actual = .error (.difference d) ↔
      expected.toValue.compare "" actual.toValue = .error d := by
  rw [checkAgainst]
  cases expected.toValue.compare "" actual.toValue with
  | error difference => simp
  | ok _ =>
      by_cases hvalid : actual.mismatches = []
      · simp [hvalid]
      · simp [hvalid]

theorem checkAgainst_eq_schema_iff {found : List Mismatch} :
    expected.checkAgainst actual = .error (.schema found) ↔
      expected.toValue.compare "" actual.toValue = .ok () ∧ found = actual.mismatches ∧
        found ≠ [] := by
  rw [checkAgainst]
  cases expected.toValue.compare "" actual.toValue with
  | error difference => simp
  | ok _ =>
      cases hfound : actual.mismatches with
      | nil =>
          constructor
          · intro h
            cases h
          · rintro ⟨-, rfl, hne⟩
            exact absurd rfl hne
      | cons first rest =>
          constructor
          · intro h
            cases h
            exact ⟨rfl, rfl, List.cons_ne_nil _ _⟩
          · rintro ⟨-, rfl, -⟩
            rfl

end Scope

/-! ## Runs -/

namespace Run

variable {r : Run} {m : ManifestText}

/-- A check against an expected scope looks at what an evaluation gives. -/
theorem check_eq_map {expectedText : String} {expected : Scope}
    (hexpected : Scope.ofExpectedText expectedText = .ok expected) :
    r.check m expectedText = (r.evaluate m).map expected.checkAgainst := by
  rw [check_eq, hexpected, evaluate]
  cases r.settings with
  | error fault => rfl
  | ok s =>
      show (execute s m >>= fun actual => _) = (execute s m).map _
      cases execute s m with
      | error fault => rfl
      | ok actual => rfl

theorem validate_eq_map {s : Settings} (hsettings : r.settings = .ok s) :
    r.validate [m] =
      (r.evaluate m).map fun scope => s.policy.apply [.ofPath m.path scope] := by
  rw [validate, evaluate, hsettings]
  show ([m].mapM fun m => _) >>= _ = (execute s m).map _
  rw [List.mapM_cons, List.mapM_nil]
  cases execute s m with
  | error fault => rfl
  | ok scope => rfl

/-- Evaluation, checks and policies agree on every manifest. They stop at the same faults. Where
there is a scope, the check passes, finds a difference or finds mismatches as its comparison and its
shape say, and the mismatches are those that a policy reports that looks at the shape, unless
findings are cut off. -/
theorem uses_agree {expectedText : String} {expected : Scope}
    (hexpected : Scope.ofExpectedText expectedText = .ok expected) :
    (∀ fault, (r.evaluate m = .error fault ↔ r.check m expectedText = .error fault) ∧
      (r.evaluate m = .error fault ↔ r.validate [m] = .error fault)) ∧
    ∀ scope, r.evaluate m = .ok scope →
      (∀ passed, r.check m expectedText = .ok (.ok passed) ↔ passed = scope ∧
        expected.toValue.compare "" scope.toValue = .ok () ∧ scope.mismatches = []) ∧
      (∀ d, r.check m expectedText = .ok (.error (.difference d)) ↔
        expected.toValue.compare "" scope.toValue = .error d) ∧
      (∀ found, r.check m expectedText = .ok (.error (.schema found)) ↔
        expected.toValue.compare "" scope.toValue = .ok () ∧ found = scope.mismatches ∧
          found ≠ []) ∧
      ∃ s outcome, r.settings = .ok s ∧ r.validate [m] = .ok outcome ∧
        ∀ severity, s.policy.severityFor Check.schemaMismatch.id = some severity →
          outcome.findingsTotal ≤ s.policy.maxFindings →
          (outcome.complaints .schemaMismatch).Perm (scope.mismatches.map Mismatch.complaint) := by
  refine ⟨fun fault => ⟨?_, ?_⟩, fun scope hscope => ?_⟩
  · rw [check_eq_map hexpected]
    exact map_eq_error_iff.symm
  · cases hsettings : r.settings with
    | error stopped =>
        rw [evaluate, validate, hsettings]
        exact ⟨fun h => by cases h; rfl, fun h => by cases h; rfl⟩
    | ok s =>
        rw [validate_eq_map hsettings]
        exact map_eq_error_iff.symm
  · obtain ⟨s, hsettings, -⟩ := bind_eq_ok.mp hscope
    rw [check_eq_map hexpected, validate_eq_map hsettings, hscope]
    refine ⟨fun passed => ?_, fun d => ?_, fun found => ?_, s, _, hsettings, rfl, ?_⟩
    · rw [← Scope.checkAgainst_eq_ok_iff]
      exact ⟨Except.ok.inj, congrArg _⟩
    · rw [← Scope.checkAgainst_eq_difference_iff]
      exact ⟨Except.ok.inj, congrArg _⟩
    · rw [← Scope.checkAgainst_eq_schema_iff]
      exact ⟨Except.ok.inj, congrArg _⟩
    · intro severity hseverity hcap
      exact Policy.perm_mismatches hseverity hcap

/-- A scope with a name that no manifest may define. -/
def strayScope : Scope := ⟨⟨[("bogus", ⟨.str "x", some 1⟩)], by decide⟩⟩

theorem evaluate_stray :
    (Run.mk "" ⟨none, none, []⟩).evaluate ⟨"DEPS", "bogus='x'"⟩ = .ok strayScope := by
  have htokens : Token.ofText "bogus='x'" = .ok [⟨.name "bogus", 1, 0⟩, ⟨.op .assign, 1, 5⟩,
      ⟨.literal .text "x", 1, 6⟩, ⟨.newline, 1, 0⟩, ⟨.endOfText, 1, 0⟩] := by decide +kernel
  have htext : Module.ofText "bogus='x'" =
      .ok ⟨[.assign 1 [.name 1 "bogus"] (.str 1 "x")]⟩ := by
    rw [Module.ofText, htokens]
    rfl
  obtain ⟨s, hsettings⟩ : ∃ s, (Run.mk "" ⟨none, none, []⟩).settings = .ok s := ⟨_, rfl⟩
  rw [evaluate, hsettings, ok_bind, execute, executeManifest, htext]
  rfl

/-- The scope is as expected, and the name is a mismatch. -/
theorem uses_agree_stray :
    Scope.ofExpectedText "\x7b\"bogus\":\"x\"\x7d" = .ok (.ofPairs [("bogus", .str "x")]) ∧
      (Run.mk "" ⟨none, none, []⟩).evaluate ⟨"DEPS", "bogus='x'"⟩ = .ok strayScope ∧
      (Run.mk "" ⟨none, none, []⟩).check ⟨"DEPS", "bogus='x'"⟩ "\x7b\"bogus\":\"x\"\x7d" =
        .ok (.error (.schema [⟨.unknownKey, "bogus", "a known key", "'bogus'"⟩])) := by
  have hjson : Json.read? "\x7b\"bogus\":\"x\"\x7d" = some (.obj [("bogus", .str "x")]) := by
    have hreadable : Json.Readable 1 (.obj [("bogus", .str "x")]) :=
      .obj (List.forall_mem_singleton.mpr (.str "x"))
    have hblank : Json.Blank "".toList := List.forall_mem_nil _
    have hcompact : (Json.obj [("bogus", .str "x")]).compact = "\x7b\"bogus\":\"x\"\x7d" := by
      decide
    have hread := Json.read?_compact hreadable (by decide) hblank
    rwa [String.append_empty, hcompact] at hread
  have hexpected : Scope.ofExpectedText "\x7b\"bogus\":\"x\"\x7d" =
      .ok (.ofPairs [("bogus", .str "x")]) := by
    rw [Scope.ofExpectedText, hjson]
    rfl
  have hplain : Value.Plain (.dict (stringKeyed [("bogus", .str "x")])) :=
    .dict (List.nodup_singleton "bogus") (List.forall_mem_singleton.mpr (.str "x"))
  have hkeyed : Value.WellKeyed strayScope.toValue := hplain.wellKeyed
  have hcompare : (Scope.ofPairs [("bogus", .str "x")]).toValue.compare "" strayScope.toValue =
      .ok () :=
    (Value.compare_eq_ok_iff hkeyed hkeyed "").mpr (Value.matches_self hkeyed)
  have hmismatches : [⟨.unknownKey, "bogus", "a known key", "'bogus'"⟩] =
      strayScope.mismatches := by
    decide
  obtain ⟨-, hagree⟩ := uses_agree hexpected
  obtain ⟨-, -, hschema, -⟩ := hagree strayScope evaluate_stray
  exact ⟨hexpected, evaluate_stray, (hschema _).mpr ⟨hcompare, hmismatches, List.cons_ne_nil _ _⟩⟩

end Run

end DepsManifest
