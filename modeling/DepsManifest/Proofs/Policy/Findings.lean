import DepsManifest.Proofs.Policy.Dependencies
import DepsManifest.Proofs.Policy.Found
/-! # Every violation is reported

In a valid manifest the checks of dependencies report every violation, and each of them once
(`Policy.valid_manifests_fully_reported`):

  * a dependency whose URL has a host that is not allowed (`Manifest.HostsReported`), if the
    manifest says something about hosts at all;
  * an entry of `recursedeps` that names no dependency (`Manifest.RecursedReported`), with its
    index.

"Each of them once" is a correspondence one to one, in order, between the violations of a manifest
and the findings about it; and for an outcome it is the same up to the order of the findings. So a
finding too many would be as much a fault as one too few.

## Which findings belong to which check

An outcome holds the findings of all checks together. Those of one check are told apart by their
codes: a finding carries a code of its check, and no two checks have a code in common
(`code_mem_codes_iff`). Then what an outcome keeps of a check is, up to the order, what the check
finds in the manifests (`filter_run`, `perm_filter_findings`). The same holds of the names of checks
and of any other mark.

## Hypotheses

The severities say that both checks are enabled. The bound on the number of findings is needed: of
the findings beyond it only the number is kept.
-/
namespace DepsManifest

/-! ## Findings of one check -/

/-- The codes of the findings of a check. -/
def Check.codes : Check → List String
  | schemaMismatch => ["type_mismatch", "unknown_key", "missing_key", "length_mismatch"]
  | allowedHosts => ["disallowed_host"]
  | unknownDependency => ["unknown_dependency"]

namespace Check

theorem id_and_code_of_mem {severity : Severity} {m : Manifest} {c : Check} {f : Finding}
    (h : f ∈ c.findings severity m) : f.checkId = c.id ∧ f.code ∈ c.codes := by
  cases c with
  | schemaMismatch =>
      obtain ⟨mismatch, -, rfl⟩ := List.mem_map.mp h
      refine ⟨rfl, ?_⟩
      show mismatch.kind.code ∈ _
      cases mismatch.kind <;> decide
  | allowedHosts =>
      rw [findings] at h
      split at h
      · cases h
      · obtain ⟨d, -, hd⟩ := List.mem_filterMap.mp h
        obtain ⟨_, -, rfl⟩ := Option.map_eq_some_iff.mp hd
        exact ⟨rfl, List.mem_singleton_self _⟩
  | unknownDependency =>
      obtain ⟨_, -, rfl⟩ := List.mem_map.mp h
      exact ⟨rfl, List.mem_singleton_self _⟩

theorem eq_of_mem_codes {c c' : Check} {code : String} (h : code ∈ c.codes) (h' : code ∈ c'.codes) :
    c = c' := by
  have hdisjoint : ∀ c ∈ all, ∀ c' ∈ all, ∀ code ∈ c.codes, code ∈ c'.codes → c = c' := by decide
  exact hdisjoint c c.mem_all c' c'.mem_all code h h'

theorem code_mem_codes_iff {p : Policy} {manifests : List Manifest} {c c' : Check} {f : Finding}
    (h : f ∈ c'.run p manifests) : decide (f.code ∈ c.codes) = true ↔ c' = c := by
  obtain ⟨severity, -, m, -, hf⟩ := mem_run_iff.mp h
  have hcode' := (id_and_code_of_mem hf).2
  rw [decide_eq_true_iff]
  constructor
  · intro hcode
    exact eq_of_mem_codes hcode' hcode
  · rintro rfl
    exact hcode'

theorem checkId_eq_iff {p : Policy} {manifests : List Manifest} {c c' : Check} {f : Finding}
    (h : f ∈ c'.run p manifests) : decide (f.checkId = c.id) = true ↔ c' = c := by
  obtain ⟨severity, -, m, -, hf⟩ := mem_run_iff.mp h
  rw [decide_eq_true_iff, (id_and_code_of_mem hf).1]
  cases c <;> cases c' <;> decide

end Check

namespace Policy

variable {p : Policy} {manifests : List Manifest}

/-- Of all findings those with a mark that only the findings of one check have are what it finds. -/
theorem filter_run {marks : Finding → Bool} (c : Check)
    (hmarks : ∀ c' : Check, ∀ f ∈ c'.run p manifests, marks f = true ↔ c' = c) :
    (p.found manifests).filter marks = c.run p manifests := by
  have hpart : ∀ c' : Check, ((c'.run p manifests).filter marks) =
      if c' = c then c'.run p manifests else [] := by
    intro c'
    split
    · rename_i heq
      exact List.filter_eq_self.mpr fun f hf => (hmarks c' f hf).mpr heq
    · rename_i hne
      exact List.filter_eq_nil_iff.mpr fun f hf hmark => hne ((hmarks c' f hf).mp hmark)
  simp only [found, List.filter_flatMap, hpart]
  cases c <;> simp [Check.all]

/-- If the cap is not reached, the findings of a check are kept, in some order. -/
theorem perm_filter_findings {marks : Finding → Bool} (c : Check)
    (hmarks : ∀ c' : Check, ∀ f ∈ c'.run p manifests, marks f = true ↔ c' = c)
    (hcap : (p.apply manifests).findingsTotal ≤ p.maxFindings) :
    ((p.apply manifests).findings.filter marks).Perm (c.run p manifests) := by
  have hkept : (p.apply manifests).findings = p.findings manifests := List.take_of_length_le hcap
  rw [hkept, ← filter_run c hmarks]
  exact (List.mergeSort_perm _ _).filter _

end Policy

/-! ## Hosts -/

namespace Dependency

variable {hosts : List String} {d : Dependency} {url host : String}

/-- The URL of a dependency has a host that is not among the given ones. -/
def Disallowed (hosts : List String) (d : Dependency) : Prop :=
  ∃ url host, d.url = some url ∧ Url.host? url.toList = some host.toList ∧ host ∉ hosts

theorem disallowed?_eq_some_iff : d.disallowed? hosts = some (url, host) ↔
    d.url = some url ∧ Url.host? url.toList = some host.toList ∧ host ∉ hosts := by
  simp only [disallowed?, Option.bind_eq_bind, Option.bind_eq_some_iff]
  constructor
  · rintro ⟨url', hurl, chars, hchars, hresult⟩
    split at hresult
    · cases hresult
    · rename_i hnot
      cases hresult
      refine ⟨hurl, by rw [hchars, String.toList_ofList], ?_⟩
      simpa using hnot
  · rintro ⟨hurl, hhost, hnot⟩
    refine ⟨url, hurl, host.toList, hhost, ?_⟩
    simp [hnot]

theorem isSome_disallowed?_iff : (d.disallowed? hosts).isSome = true ↔ d.Disallowed hosts := by
  rw [Option.isSome_iff_exists]
  constructor
  · rintro ⟨⟨url, host⟩, h⟩
    exact ⟨url, host, disallowed?_eq_some_iff.mp h⟩
  · rintro ⟨url, host, h⟩
    exact ⟨(url, host), disallowed?_eq_some_iff.mpr h⟩

instance (hosts : List String) (d : Dependency) : Decidable (d.Disallowed hosts) :=
  decidable_of_iff _ isSome_disallowed?_iff

end Dependency

theorem forall₂_filter_filterMap {α β : Type} {p : α → Prop} [DecidablePred p] {g : α → Option β}
    {R : α → β → Prop} (hp : ∀ a, (g a).isSome = true ↔ p a) (hR : ∀ a b, g a = some b → R a b)
    (l : List α) : List.Forall₂ R (l.filter fun a => decide (p a)) (l.filterMap g) := by
  induction l with
  | nil => exact .nil
  | cons a l ih =>
      cases hg : g a with
      | none =>
          have hnot : ¬ p a := by
            rw [← hp a, hg]
            exact nofun
          rw [List.filterMap_cons_none hg, List.filter_cons_of_neg (by simpa using hnot)]
          exact ih
      | some b =>
          have hkept : p a := by
            rw [← hp a, hg]
            rfl
          rw [List.filterMap_cons_some hg, List.filter_cons_of_pos (by simpa using hkept)]
          exact .cons (hR a b hg) ih

namespace Manifest

variable {m : Manifest} {severity : Severity}

/-- A finding says of a dependency from which host it comes that is not allowed. -/
def ReportsHost (m : Manifest) (severity : Severity) (hosts : List String) (d : Dependency)
    (f : Finding) : Prop :=
  ∃ url host, d.url = some url ∧ Url.host? url.toList = some host.toList ∧
    f = m.hostFinding severity hosts d url host

/-- The findings are about the dependencies whose hosts are not allowed, one for each; where nothing
is said about hosts there are none. -/
def HostsReported (m : Manifest) (severity : Severity) (found : List Finding) : Prop :=
  (m.scope.get? "allowed_hosts" = none → found = []) ∧
    ∀ v, m.scope.get? "allowed_hosts" = some v → ∃ hosts : List String, v = .list (hosts.map .str) ∧
      List.Forall₂ (m.ReportsHost severity hosts)
        (m.dependencies.filter fun d => decide (d.Disallowed hosts)) found

theorem allowedHosts?_eq {hosts : List String}
    (h : m.scope.get? "allowed_hosts" = some (.list (hosts.map .str))) :
    m.allowedHosts? = some hosts := by
  have hstrings : (hosts.map Value.str).filterMap Value.asString? = hosts := by
    rw [List.filterMap_map]
    exact List.filterMap_some
  rw [allowedHosts?, h]
  exact congrArg some hstrings

/-- In a valid manifest every dependency from a host that is not allowed is reported. -/
theorem hostsReported (hvalid : m.scope.mismatches = []) :
    m.HostsReported severity (Check.allowedHosts.findings severity m) := by
  refine ⟨fun hnone => ?_, fun v hv => ?_⟩
  · have hunbound : m.allowedHosts? = none := by
      rw [allowedHosts?, hnone]
      rfl
    rw [Check.findings, hunbound]
  · have hstrings : Shape.strings.Conforms v := Scope.conforms_of_get? hvalid hv rfl
    obtain ⟨items, rfl, hitems⟩ := Shape.conforms_listOf_iff.mp hstrings
    obtain ⟨hosts, rfl⟩ := Scope.exists_eq_map_str hitems
    refine ⟨hosts, rfl, ?_⟩
    rw [Check.findings, allowedHosts?_eq hv]
    refine forall₂_filter_filterMap (fun d => ?_) (fun d f hf => ?_) m.dependencies
    · rw [Option.isSome_map]
      exact Dependency.isSome_disallowed?_iff
    · obtain ⟨⟨url, host⟩, hd, rfl⟩ := Option.map_eq_some_iff.mp hf
      obtain ⟨hurl, hhost, -⟩ := Dependency.disallowed?_eq_some_iff.mp hd
      exact ⟨url, host, hurl, hhost, rfl⟩

/-! ## Recursion -/

/-- The dependency that an entry of `recursedeps` names. -/
inductive NamesDependency : Value → String → Prop
  | name (n : String) : NamesDependency (.str n) n
  | list (n file : String) : NamesDependency (.list [.str n, .str file]) n
  | tuple (n file : String) : NamesDependency (.tuple [.str n, .str file]) n

/-- The findings are about the entries of `recursedeps` that name none of the known dependencies,
one for each, with its index. -/
def RecursedReported (m : Manifest) (severity : Severity) (known : List String)
    (found : List Finding) : Prop :=
  (m.scope.get? "recursedeps" = none → found = []) ∧
    ∀ v, m.scope.get? "recursedeps" = some v → ∃ items names, v = .list items ∧
      List.Forall₂ NamesDependency items names ∧
      found = (names.zipIdx.filter fun e => decide (e.1 ∉ known)).map fun e =>
        m.recursedFinding severity e.1 e.2

theorem NamesDependency.recursedName?_eq {entry : Value} {name : String}
    (h : NamesDependency entry name) : recursedName? entry = some name := by
  cases h with
  | name n => rfl
  | list n file => rfl
  | tuple n file => rfl

theorem exists_namesDependency {entry : Value}
    (h : (Shape.oneOf [.str, .pair .str .str]).Conforms entry) :
    ∃ name, NamesDependency entry name := by
  obtain ⟨shape, hshape, hentry⟩ := Shape.conforms_oneOf_iff.mp h
  simp only [List.mem_cons, List.not_mem_nil, or_false] at hshape
  rcases hshape with rfl | rfl
  · obtain ⟨name, rfl⟩ := Shape.conforms_str_iff.mp hentry
    exact ⟨name, .name name⟩
  · cases hentry with
    | pairList ha hb =>
        obtain ⟨name, rfl⟩ := Shape.conforms_str_iff.mp ha
        obtain ⟨file, rfl⟩ := Shape.conforms_str_iff.mp hb
        exact ⟨name, .list name file⟩
    | pairTuple ha hb =>
        obtain ⟨name, rfl⟩ := Shape.conforms_str_iff.mp ha
        obtain ⟨file, rfl⟩ := Shape.conforms_str_iff.mp hb
        exact ⟨name, .tuple name file⟩

theorem exists_names {items : List Value}
    (h : ∀ entry ∈ items, (Shape.oneOf [.str, .pair .str .str]).Conforms entry) :
    ∃ names, List.Forall₂ NamesDependency items names := by
  induction items with
  | nil => exact ⟨[], .nil⟩
  | cons entry items ih =>
      obtain ⟨hfirst, hrest⟩ := List.forall_mem_cons.mp h
      obtain ⟨name, hname⟩ := exists_namesDependency hfirst
      obtain ⟨names, hnames⟩ := ih hrest
      exact ⟨name :: names, .cons hname hnames⟩

theorem filterMap_zipIdx_eq {known : List String} {items : List Value} {names : List String}
    (h : List.Forall₂ NamesDependency items names) (index : Nat) :
    ((items.zipIdx index).filterMap fun (entry, index) => do
      let name ← recursedName? entry
      if known.contains name then none else some (name, index)) =
      (names.zipIdx index).filter fun e => decide (e.1 ∉ known) := by
  induction h generalizing index with
  | nil => rfl
  | @cons entry name items names hentry _ ih =>
      rw [List.zipIdx_cons, List.zipIdx_cons]
      by_cases hknown : name ∈ known
      · rw [List.filterMap_cons_none (by simp [hentry.recursedName?_eq, hknown]),
          List.filter_cons_of_neg (by simp [hknown])]
        exact ih (index + 1)
      · rw [List.filterMap_cons_some (b := (name, index))
            (by simp [hentry.recursedName?_eq, hknown]),
          List.filter_cons_of_pos (by simp [hknown])]
        exact congrArg _ (ih (index + 1))

/-- In a valid manifest every entry of `recursedeps` that names no dependency is reported. -/
theorem recursedReported (hvalid : m.scope.mismatches = []) :
    m.RecursedReported severity (m.dependencies.map (·.name))
      (Check.unknownDependency.findings severity m) := by
  refine ⟨fun hnone => ?_, fun v hv => ?_⟩
  · rw [Check.findings, unknownRecursed, hnone]
    rfl
  · have hshape : Shape.ofName? "recursedeps" =
        some (.listOf (.oneOf [.str, .pair .str .str])) := rfl
    obtain ⟨items, rfl, hitems⟩ :=
      Shape.conforms_listOf_iff.mp (Scope.conforms_of_get? hvalid hv hshape)
    obtain ⟨names, hnames⟩ := exists_names hitems
    refine ⟨items, names, rfl, hnames, ?_⟩
    rw [Check.findings, unknownRecursed, hv]
    exact congrArg _ (filterMap_zipIdx_eq hnames 0)

end Manifest

/-! ## Outcomes -/

namespace Policy

/-- The findings of an outcome with a code are, in some order, findings about each of the manifests
that are as a relation says. -/
def Reports (outcome : Outcome) (code : String) (manifests : List Manifest)
    (R : Manifest → List Finding → Prop) : Prop :=
  ∃ found : Manifest → List Finding,
    (outcome.findings.filter fun f => decide (f.code = code)).Perm (manifests.flatMap found) ∧
      ∀ m ∈ manifests, R m (found m)

theorem reports_of_findings {p : Policy} {manifests : List Manifest} {c : Check} {code : String}
    {severity : Severity} {R : Manifest → List Finding → Prop} (hcodes : c.codes = [code])
    (hseverity : p.severityFor c.id = some severity)
    (hcap : (p.apply manifests).findingsTotal ≤ p.maxFindings)
    (hR : ∀ m ∈ manifests, R m (c.findings severity m)) :
    Reports (p.apply manifests) code manifests R := by
  refine ⟨c.findings severity, ?_, hR⟩
  have hkept := perm_filter_findings c (fun c' f => Check.code_mem_codes_iff) hcap
  simpa only [hcodes, List.mem_singleton, Check.run_eq_flatMap hseverity] using hkept

/-- Nothing in valid manifests slips past the checks: their declarations yield their dependencies,
one each and in order, and under a policy with both checks of dependencies, unless findings are cut
off, the findings are one for each dependency whose host is not allowed, and one for each entry of
`recursedeps` that names nothing declared. -/
theorem valid_manifests_fully_reported {manifests : List Manifest}
    (hvalid : ∀ m ∈ manifests, m.scope.mismatches = []) :
    (∀ m ∈ manifests, ∃ deps systems, m.scope.Declares deps systems ∧
      List.Forall₂ Declaration.Yields (Declaration.all deps systems) m.dependencies) ∧
    ∀ (p : Policy) (s₁ s₂ : Severity), p.severityFor Check.allowedHosts.id = some s₁ →
      p.severityFor Check.unknownDependency.id = some s₂ →
      (p.apply manifests).findingsTotal ≤ p.maxFindings →
      Reports (p.apply manifests) "disallowed_host" manifests (fun m => m.HostsReported s₁) ∧
      Reports (p.apply manifests) "unknown_dependency" manifests fun m found =>
        ∀ deps systems, m.scope.Declares deps systems →
          m.RecursedReported s₂ ((Declaration.all deps systems).map (·.name)) found := by
  refine ⟨fun m hm => ?_, fun p s₁ s₂ hhosts hrecursed hcap => ⟨?_, ?_⟩⟩
  · obtain ⟨deps, systems, hdeclares, hproper⟩ := Scope.exists_declares (hvalid m hm)
    exact ⟨deps, systems, hdeclares, Manifest.forall₂_yields hdeclares hproper⟩
  · exact reports_of_findings rfl hhosts hcap fun m hm => Manifest.hostsReported (hvalid m hm)
  · refine reports_of_findings rfl hrecursed hcap fun m hm deps systems hdeclares => ?_
    have hnames : m.dependencies.map (·.name) = (Declaration.all deps systems).map (·.name) := by
      rw [Manifest.dependencies_eq hdeclares, List.map_map]
      exact List.map_congr_left fun d _ => d.name_dependency
    rw [← hnames]
    exact Manifest.recursedReported (hvalid m hm)

/-- A manifest with a dependency from a host that is not allowed, and with recursion into a
dependency that it does not declare. -/
def strayManifest : Manifest :=
  .ofPath "DEPS" (.ofPairs [("allowed_hosts", .list [.str "good.example"]),
    ("deps", .dict [(.str "a", .str "https://evil.example/a")]),
    ("recursedeps", .list [.str "b"])])

def strayPolicy : Policy :=
  ⟨"default", .error, 10, .ofList [("deps.allowed_hosts", ⟨true, .error⟩),
    ("recursedeps.unknown_dep", ⟨true, .warning⟩)]⟩

theorem valid_manifests_fully_reported_stray :
    strayManifest.scope.mismatches = [] ∧
      strayPolicy.severityFor Check.allowedHosts.id = some .error ∧
      strayPolicy.severityFor Check.unknownDependency.id = some .warning ∧
      (strayPolicy.apply [strayManifest]).findingsTotal ≤ strayPolicy.maxFindings ∧
      Reports (strayPolicy.apply [strayManifest]) "disallowed_host" [strayManifest]
        (fun m => m.HostsReported .error) := by
  have hvalid : strayManifest.scope.mismatches = [] := by decide
  have hhosts : strayPolicy.severityFor Check.allowedHosts.id = some .error := by decide
  have hrecursed : strayPolicy.severityFor Check.unknownDependency.id = some .warning := by decide
  have hcap : (strayPolicy.apply [strayManifest]).findingsTotal ≤ strayPolicy.maxFindings := by
    show (findings strayPolicy [strayManifest]).length ≤ 10
    rw [findings, List.length_mergeSort]
    decide
  have hall : ∀ m ∈ [strayManifest], m.scope.mismatches = [] := by
    intro m hm
    rw [List.mem_singleton.mp hm]
    exact hvalid
  exact ⟨hvalid, hhosts, hrecursed, hcap,
    ((valid_manifests_fully_reported hall).2 strayPolicy .error .warning hhosts hrecursed hcap).1⟩

end Policy

end DepsManifest
