import DepsManifest.Proofs.Schema.Written
import DepsManifest.Proofs.Settings
/-! # What a run accepts

## Two ways to execute a manifest

A check executes a manifest in steps of its own: it evaluates the variables of the manifest, makes
the functions that know them, and executes the text with these. An evaluation leaves all that to one
function. Both come to the same, in scopes and in faults (`Run.execute_eq_bind`), so a check
compares what an evaluation gives (`Run.check_eq`).

## A manifest passes its own output

The output of an evaluation is an expected scope that the same manifest passes, in its compact form
and in its indented one (`Run.check_accepts_output`). Two hypotheses say what has to be right with
the scope for that:

  * it is valid, since otherwise the check would name the mismatches;
  * the variables that come from outside are values that can be constructed. Those of a
    configuration always are (`forall_customVars`), and a command line can only set strings and
    truth values, so this leaves out nothing that can be run.

It is not true because the scope is read back: the text says less than the scope. A tuple is written
as a list, and the keys of a dict come back in another order. But the values of a valid scope have
string keys throughout, what is read back is matched by what was written
(`Scope.exists_ofExpectedText`), and an expected list stands for a tuple.
-/
namespace DepsManifest

/-! ## Variables from outside -/

namespace Settings

theorem forall_customVars {P : Value → Prop} (hP : Value.Closed P) {config : Config}
    {overrides : Overrides} (hvars : ∀ e ∈ overrides.vars, P e.2) {s : Settings}
    (h : resolve config overrides = .ok s) {name : String} {v : Value}
    (hv : s.customVars.get? name = some v) : P v := by
  rcases customVars_cases h hv with hmem | ⟨x, -, rfl⟩
  · exact hvars _ hmem
  · cases x with
    | bool b => exact hP.bool b
    | str s => exact hP.str s

end Settings

namespace Run

variable {r : Run} {m : ManifestText}

theorem evaluate_binds {P : Value → Prop} (hP : Value.Closed P)
    (hvars : ∀ e ∈ r.overrides.vars, P e.2) {scope : Scope} (h : r.evaluate m = .ok scope) :
    scope.Binds P := by
  obtain ⟨s, hsettings, hscope⟩ := bind_eq_ok.mp h
  unfold settings at hsettings
  split at hsettings
  · cases hsettings
  · have hcustom : ∀ n v, s.customVars.get? n = some v → P v := fun n v hv =>
      Settings.forall_customVars hP hvars (mapError_eq_ok.mp hsettings) hv
    exact executeManifest_closed hP hcustom (mapError_eq_ok.mp hscope)

/-! ## Two ways to execute a manifest -/

/-- To execute a manifest is to execute its text with its functions. -/
theorem execute_eq_bind (s : Settings) (m : ManifestText) :
    executeManifest s.customVars m.text =
      functions s m >>= fun fs => Module.executeText fs m.text := by
  unfold executeManifest functions
  cases htext : Module.ofText m.text with
  | error fault => rfl
  | ok module =>
      simp only [Module.executeManifest]
      cases module.manifestVars with
      | error fault => rfl
      | ok vars =>
          rw [ok_bind, Module.executeText, htext]

/-- A check compares the scope of a manifest with the expected one. -/
theorem check_eq (r : Run) (m : ManifestText) (expectedText : String) :
    r.check m expectedText = do
      let s ← r.settings
      let expected ← (Scope.ofExpectedText expectedText).mapError .expected
      let actual ← execute s m
      return expected.checkAgainst actual := by
  unfold check
  cases r.settings with
  | error fault => rfl
  | ok s =>
      rw [ok_bind, ok_bind]
      cases (Scope.ofExpectedText expectedText).mapError RunFault.expected with
      | error fault => rfl
      | ok expected =>
          rw [ok_bind, ok_bind, execute, execute_eq_bind]
          cases functions s m with
          | error fault => rfl
          | ok fs =>
              rw [ok_bind, Except.mapError, ok_bind]
              unfold Module.checkText
              cases Module.executeText fs m.text with
              | error fault => rfl
              | ok actual =>
                  rw [Except.mapError, ok_bind]
                  dsimp only
                  cases expected.checkAgainst actual with
                  | error failure => rfl
                  | ok scope => rfl

/-- The output of an evaluation is accepted by a check of the same manifest, if the scope is valid:
the compact text, and the indented one with its line break. The variables of the overrides are any
values that can be constructed. -/
theorem check_accepts_output (hvars : ∀ e ∈ r.overrides.vars, e.2.Constructible) {scope : Scope}
    (heval : r.evaluate m = .ok scope) (hvalid : scope.mismatches = []) :
    r.check m scope.serialized = .ok (.ok scope) ∧
      r.check m (scope.document.indented ++ "\n") = .ok (.ok scope) := by
  obtain ⟨expected, hexpected, hscope, hmatches, hread⟩ :=
    scope.exists_ofExpectedText_of_valid hvalid
      (evaluate_binds Value.closed_constructible hvars heval)
  have hcompare : expected.toValue.compare "" scope.toValue = .ok () :=
    (Value.compare_eq_ok_iff hexpected hscope "").mpr hmatches
  have hpasses : expected.checkAgainst scope = .ok scope := by
    rw [Scope.checkAgainst, hcompare]
    simp only [hvalid, List.isEmpty_nil, if_true]
  obtain ⟨s, hsettings, hexecute⟩ := bind_eq_ok.mp heval
  have hcheck : ∀ text, Scope.ofExpectedText text = .ok expected →
      r.check m text = .ok (.ok scope) := by
    intro text htext
    rw [check_eq, hsettings, ok_bind, htext]
    show (execute s m >>= fun actual => _) = _
    rw [hexecute, ok_bind, hpasses]
    rfl
  have hbreak : Json.Blank "\n".toList := List.forall_mem_singleton.mpr rfl
  refine ⟨hcheck _ ?_, hcheck _ (hread "\n" hbreak).2⟩
  have hcompact := (hread "" nofun).1
  rwa [String.append_empty] at hcompact

def pairScope : Scope :=
  ⟨⟨[("recursedeps", ⟨.list [.tuple [.str "b", .str "x"]], some 1⟩)], by decide⟩⟩

/-- The pair is written as a list, and what is written is accepted. -/
theorem check_accepts_output_pair :
    pairScope.serialized = "\x7b\"recursedeps\":[[\"b\",\"x\"]]\x7d" ∧
      (Run.mk "" ⟨none, none, []⟩).evaluate ⟨"DEPS", "recursedeps=[('b','x')]"⟩ = .ok pairScope ∧
      pairScope.mismatches = [] ∧
      (Run.mk "" ⟨none, none, []⟩).check ⟨"DEPS", "recursedeps=[('b','x')]"⟩ pairScope.serialized =
        .ok (.ok pairScope) := by
  have htokens : Token.ofText "recursedeps=[('b','x')]" = .ok
      [⟨.name "recursedeps", 1, 0⟩, ⟨.op .assign, 1, 11⟩, ⟨.op .leftBracket, 1, 12⟩,
        ⟨.op .leftParen, 1, 13⟩, ⟨.literal .text "b", 1, 14⟩, ⟨.op .comma, 1, 17⟩,
        ⟨.literal .text "x", 1, 18⟩, ⟨.op .rightParen, 1, 21⟩, ⟨.op .rightBracket, 1, 22⟩,
        ⟨.newline, 1, 0⟩, ⟨.endOfText, 1, 0⟩] := by decide +kernel
  have htext : Module.ofText "recursedeps=[('b','x')]" = .ok ⟨[.assign 1 [.name 1 "recursedeps"]
      (.list 1 [.tuple 1 [.str 1 "b", .str 1 "x"]])]⟩ := by
    rw [Module.ofText, htokens]
    rfl
  have hsettings : ∃ s, (Run.mk "" ⟨none, none, []⟩).settings = .ok s := ⟨_, rfl⟩
  have heval : (Run.mk "" ⟨none, none, []⟩).evaluate ⟨"DEPS", "recursedeps=[('b','x')]"⟩ =
      .ok pairScope := by
    obtain ⟨s, hs⟩ := hsettings
    rw [evaluate, hs, ok_bind, execute, executeManifest, htext]
    rfl
  have hvalid : pairScope.mismatches = [] := by decide
  exact ⟨by decide, heval, hvalid,
    (check_accepts_output (List.forall_mem_nil _) heval hvalid).1⟩

end Run

end DepsManifest
