import DepsManifest.Proofs.Evaluation.Concatenation
import DepsManifest.Proofs.Policy.Order
import DepsManifest.Proofs.Policy.Places
import DepsManifest.Proofs.Schema.Paths
import DepsManifest.Proofs.Statement.Origin
/-! # Findings stand where the name is assigned

A finding about a manifest has the path of a value in its data. The path begins with a name that the
manifest binds, and exactly one statement assigns to that name; the finding stands on the line of
that statement (`Policy.findings_at_assignments`). It is so for any text, any functions and any
policy, and whether or not findings are cut off.

## The way of the proof

  * What a finding is about is under a name that is bound. This is a fact about each check
    (`Concerns.below`): a mismatch is in a value of the scope, and a dependency is an entry of
    `deps` or of a dict in `deps_os` (`below_of_mem_dependencies`).
  * A name that a module binds is assigned to by one of its statements and by no other, and the line
    of that statement is the line that the scope records (`exists_assignment`).

A path is a text, and "begins with a name" has to be read off it. That takes names that are words: a
name with a bracket could not be told from the path that it begins, and the empty name would leave
no trace in a path. The names of a text that has been read are words (`Lexeme.isRoot_of_isWord`), so
the theorem asks for manifests that come from texts, and for nothing else.
-/
namespace DepsManifest

open ValuePath (Below IsRoot)

/-! ## Names that are bound -/

theorem Lexeme.isRoot_of_isWord {n : String} (h : isWord n = true) : IsRoot n := by
  obtain ⟨c, cs, hchars, hstart, hparts⟩ := exists_chars_of_isWord h
  refine ⟨?_, ?_⟩
  · rintro rfl
    cases hchars
  · rw [hchars]
    intro hbracket
    rcases List.mem_cons.mp hbracket with rfl | hmem
    · cases hstart
    · cases hparts _ hmem

theorem Scope.exists_binding {s : Scope} {name : String} (h : s.contains name = true) :
    ∃ b, s.bindings.get? name = some b :=
  Option.isSome_iff_exists.mp h

namespace Module

variable {fs : Functions} {text : String} {m : Module} {scope : Scope} {name : String}

/-- A name that a text binds is assigned to by one of its statements, whose line is recorded. -/
theorem exists_assignment (htext : ofText text = .ok m) (h : m.execute fs = .ok scope)
    (hname : scope.contains name = true) : IsRoot name ∧
      ∃ s, (m.body.filter fun t => decide (t.target? = some name)) = [s] ∧
        scope.lineOf? name = some s.line := by
  obtain ⟨b, hb⟩ := Scope.exists_binding hname
  obtain ⟨s, hs, hbinds⟩ := exists_binds h hb
  have htarget : s.target? = some name := hbinds.target?_eq
  obtain ⟨e, v, -, -, rfl⟩ := hbinds
  refine ⟨Lexeme.isRoot_of_isWord (isWord_of_target? htext hs htarget), s,
    filter_target?_eq h hs htarget, ?_⟩
  rw [Scope.lineOf?, hb]
  rfl

end Module

/-! ## What a finding is about is bound -/

namespace Dependency

variable {e : Value × Value} {os : String} {d : Dependency}

theorem place_of_ofPair? (h : ofPair? e = some d) :
    d.rootKey = "deps" ∧ d.valuePath = Mismatch.keyPath "deps" e.1 := by
  obtain ⟨k, v⟩ := e
  cases k with
  | str name =>
      cases h
      exact ⟨rfl, rfl⟩
  | _ => cases h

theorem keyPath_os_ne_empty (k : Value) : Mismatch.keyPath "deps_os" k ≠ "" :=
  (ValuePath.below_keyPath (by decide) k).ne_empty (by decide)

theorem place_of_ofOsPair? (h : ofOsPair? os e = some d) : d.rootKey = "deps_os" ∧
    d.valuePath = Mismatch.keyPath (Mismatch.keyPath "deps_os" (.str os)) e.1 := by
  obtain ⟨k, v⟩ := e
  cases k with
  | str name =>
      cases h
      refine ⟨rfl, ?_⟩
      have hbrackets : "][" = "]" ++ "[" := rfl
      rw [Mismatch.keyPath, if_neg (keyPath_os_ne_empty (.str os)), Mismatch.keyPath,
        if_neg (by decide)]
      simp only [hbrackets, ← String.append_assoc]
      rfl
  | _ => cases h

theorem place_of_mem_ofOs (h : d ∈ ofOs e) :
    d.rootKey = "deps_os" ∧ Below (Mismatch.keyPath "deps_os" e.1) d.valuePath := by
  unfold ofOs at h
  split at h
  · obtain ⟨e', -, hd⟩ := List.mem_filterMap.mp h
    obtain ⟨hroot, hpath⟩ := place_of_ofOsPair? hd
    rw [hpath]
    exact ⟨hroot, ValuePath.below_keyPath (keyPath_os_ne_empty _) e'.1⟩
  · cases h

end Dependency

namespace Manifest

variable {m : Manifest} {name path : String}

theorem contains_of_mem_entriesOf {e : Value × Value} (h : e ∈ m.entriesOf name) :
    m.scope.contains name = true := by
  rw [entriesOf, Scope.get?] at h
  rw [Scope.contains, NameMap.contains]
  cases hget : m.scope.bindings.get? name with
  | none =>
      rw [hget] at h
      cases h
  | some b => rfl

/-- A dependency is an entry of the dict that its name is bound to. -/
theorem below_of_mem_dependencies {d : Dependency} (h : d ∈ m.dependencies) :
    m.scope.contains d.rootKey = true ∧ Below d.rootKey d.valuePath := by
  rcases List.mem_append.mp h with hd | hd
  · obtain ⟨e, he, hpair⟩ := List.mem_filterMap.mp hd
    obtain ⟨hroot, hpath⟩ := Dependency.place_of_ofPair? hpair
    rw [hroot, hpath]
    exact ⟨contains_of_mem_entriesOf he, ValuePath.below_keyPath (by decide) e.1⟩
  · obtain ⟨e, he, hos⟩ := List.mem_flatMap.mp hd
    obtain ⟨hroot, hbelow⟩ := Dependency.place_of_mem_ofOs hos
    rw [hroot]
    exact ⟨contains_of_mem_entriesOf he, (ValuePath.below_keyPath (by decide) e.1).trans hbelow⟩

theorem Concerns.below (hnames : ∀ name, m.scope.contains name = true → IsRoot name)
    (h : m.Concerns name path) : m.scope.contains name = true ∧ Below name path := by
  cases h with
  | mismatch hfound =>
      obtain ⟨name, hname, hbelow⟩ := Scope.exists_below_of_mem_mismatches
        (fun name hname => (hnames name hname).ne_empty) hfound
      rw [ValuePath.rootKey_eq hbelow (hnames name hname)]
      exact ⟨hname, hbelow⟩
  | dependency hd => exact below_of_mem_dependencies hd
  | recursed index hbound =>
      refine ⟨?_, Below.here.step _⟩
      obtain ⟨b, hb, -⟩ := Option.map_eq_some_iff.mp hbound
      rw [Scope.contains, NameMap.contains, hb]
      rfl

end Manifest

/-! ## Findings -/

/-- `f.IsAtAssignment path body`: the value that the finding is about is under a name (and under one
only, `ValuePath.Below.unique`), one of the statements assigns to that name and no other does, and
the finding stands in the manifest at the path, on the line of that statement. -/
def Finding.IsAtAssignment (f : Finding) (path : String) (body : List Statement) : Prop :=
  ∃ name valuePath s, f.valuePath? = some valuePath ∧ IsRoot name ∧ Below name valuePath ∧
    (body.filter fun t => decide (t.target? = some name)) = [s] ∧
    f.location = some ⟨path, some (.ofNat s.line), none⟩

theorem Check.isAtAssignment {severity : Severity} {m : Manifest} {c : Check} {f : Finding}
    (h : f ∈ c.findings severity m) {fs : Functions} {text : String} {module : Module}
    (htext : Module.ofText text = .ok module) (hexecute : module.execute fs = .ok m.scope) :
    f.IsAtAssignment m.path module.body := by
  obtain ⟨name, path, hconcern, hpath, hlocation⟩ := exists_concern h
  obtain ⟨hbound, hbelow⟩ := hconcern.below fun name hname =>
    (Module.exists_assignment htext hexecute hname).1
  obtain ⟨hroot, s, hone, hline⟩ := Module.exists_assignment htext hexecute hbound
  refine ⟨name, path, s, hpath, hroot, hbelow, hone, ?_⟩
  rw [hlocation, Manifest.locationOf, hline]
  rfl

namespace Policy

/-- Every finding about manifests that come from texts stands where the name is assigned that its
value is under: whatever text and functions the scope of its manifest comes from, one statement of
the text assigns to the name, and the finding is on its line. In particular the name that a mismatch
is under is bound. -/
theorem findings_at_assignments (p : Policy) {manifests : List Manifest}
    (h : ∀ m ∈ manifests, ∃ fs text, Module.executeText fs text = .ok m.scope) :
    (∀ f ∈ (p.apply manifests).findings, ∃ c severity, ∃ m ∈ manifests,
      f ∈ Check.findings severity m c ∧
      ∀ fs text, Module.executeText fs text = .ok m.scope →
        ∃ module, Module.ofText text = .ok module ∧ f.IsAtAssignment m.path module.body) ∧
    ∀ m ∈ manifests, ∀ found ∈ m.scope.mismatches, m.scope.contains found.rootKey = true := by
  refine ⟨fun f hf => ?_, fun m hm found hfound => ?_⟩
  · obtain ⟨c, severity, -, m, hm, hc⟩ := mem_found_iff.mp (mem_found_of_mem_apply hf)
    refine ⟨c, severity, m, hm, hc, fun fs text htext => ?_⟩
    obtain ⟨module, hmodule, hexecute⟩ := Module.executeText_eq_ok_iff.mp htext
    exact ⟨module, hmodule, Check.isAtAssignment hc hmodule hexecute⟩
  · obtain ⟨fs, text, htext⟩ := h m hm
    obtain ⟨module, hmodule, hexecute⟩ := Module.executeText_eq_ok_iff.mp htext
    have hconcern : m.Concerns found.rootKey found.path := .mismatch hfound
    exact (hconcern.below fun name hname =>
      (Module.exists_assignment hmodule hexecute hname).1).1

/-- A scope with a name that no manifest has, assigned to on the second line. -/
def lateScope : Scope := ⟨⟨[("b", ⟨.str "x", some 2⟩)], by decide⟩⟩

def shapePolicy : Policy :=
  ⟨"default", .error, 10, .ofList [("schema.mismatch", ⟨true, .error⟩)]⟩

def lateFinding : Finding :=
  (Manifest.mk "DEPS" lateScope).mismatchFinding .error
    ⟨.unknownKey, "b", "a known key", "'b'"⟩

theorem findings_at_assignments_late :
    Module.executeText .strOnly "\nb='x'" = .ok lateScope ∧
      (shapePolicy.apply [⟨"DEPS", lateScope⟩]).findings = [lateFinding] ∧
      lateFinding.location = some ⟨"DEPS", some 2, none⟩ ∧
      lateFinding.IsAtAssignment "DEPS" [.assign 2 [.name 2 "b"] (.str 2 "x")] := by
  have htokens : Token.ofText "\nb='x'" = .ok [⟨.name "b", 2, 0⟩, ⟨.op .assign, 2, 1⟩,
    ⟨.literal .text "x", 2, 2⟩, ⟨.newline, 2, 0⟩, ⟨.endOfText, 2, 0⟩] := by decide +kernel
  have hmodule : Module.ofText "\nb='x'" = .ok ⟨[.assign 2 [.name 2 "b"] (.str 2 "x")]⟩ := by
    rw [Module.ofText, htokens]
    rfl
  have hexecute : Module.executeText .strOnly "\nb='x'" = .ok lateScope := by
    rw [Module.executeText, hmodule]
    rfl
  have hfound : shapePolicy.found [⟨"DEPS", lateScope⟩] = [lateFinding] := rfl
  have hfindings : (shapePolicy.apply [⟨"DEPS", lateScope⟩]).findings = [lateFinding] := by
    show ((shapePolicy.found [⟨"DEPS", lateScope⟩]).mergeSort Finding.precedes).take 10 = _
    rw [hfound, List.mergeSort_singleton]
    rfl
  have hmanifests : ∀ m ∈ [Manifest.mk "DEPS" lateScope],
      ∃ fs text, Module.executeText fs text = .ok m.scope :=
    List.forall_mem_singleton.mpr ⟨_, _, hexecute⟩
  obtain ⟨c, severity, m, hm, -, hplace⟩ := (findings_at_assignments shapePolicy hmanifests).1
    lateFinding (by rw [hfindings]; exact List.mem_singleton_self _)
  cases List.mem_singleton.mp hm
  obtain ⟨module, hsame, hfinding⟩ := hplace _ _ hexecute
  cases hmodule.symm.trans hsame
  exact ⟨hexecute, hfindings, rfl, hfinding⟩

end Policy

end DepsManifest
