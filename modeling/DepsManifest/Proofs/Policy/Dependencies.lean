import DepsManifest.Policy.Manifest
import DepsManifest.Proofs.Schema.Manifest
import Mathlib.Data.List.Forall2
/-! # The dependencies of a valid manifest

The dependencies of a manifest are read off its scope without a word about what does not look like
one. In a valid scope nothing is passed over:

  * `deps` and `deps_os` declare entries (`Scope.Declares`). A scope declares such entries if it has
    dicts of string keys in these places, and a valid scope does (`exists_declares`);
  * in their order each declaration yields one dependency, with its name, its operating system and
    its URL (`Manifest.forall₂_yields`).

`Declaration.Proper` lists what a declaration may be: a URL, a dict with a URL in it or, for an
operating system, null. Only an entry of `deps_os` can be without a URL, and only if its value is
null.

That a scope is valid is the absence of mismatches, and it enters through the shapes: an entry that
conforms to the shape of a dependency is proper (`proper_of_dep`, `proper_of_osDep`). So a change of
the shapes touches these two lemmas.
-/
namespace DepsManifest

/-- An entry of `deps`, or of a dict in `deps_os`. -/
structure Declaration where
  os : Option String
  name : String
  spec : Value

/-- The entries of `deps`, and for each operating system of `deps_os` the entries of its dict. -/
structure Scope.Declares (s : Scope) (deps : List (String × Value))
    (systems : List (String × List (String × Value))) : Prop where
  deps : s.HasEntries "deps" (stringKeyed deps)
  systems : s.HasEntries "deps_os"
    (stringKeyed (systems.map fun system => (system.1, .dict (stringKeyed system.2))))

/-- The URL that the value of an entry gives: the string, or what a dict has under `url`. -/
inductive GivesUrl : Value → Option String → Prop
  | string (url : String) : GivesUrl (.str url) (some url)
  | field {entries : List (Value × Value)} {url : String} :
      (⟨entries⟩ : Dict).getString? "url" = some (.str url) →
      GivesUrl (.dict entries) (some url)
  | nothing : GivesUrl .null none

namespace Declaration

def all (deps : List (String × Value)) (systems : List (String × List (String × Value))) :
    List Declaration :=
  deps.map (fun e => ⟨none, e.1, e.2⟩) ++
    systems.flatMap fun system => system.2.map fun e => ⟨some system.1, e.1, e.2⟩

/-- A dependency is what a declaration says. -/
structure Yields (d : Declaration) (e : Dependency) : Prop where
  name : e.name = d.name
  os : e.os = d.os
  url : GivesUrl d.spec e.url
  withoutUrl : e.url = none ↔ d.os.isSome ∧ d.spec = .null

/-- The declarations that a manifest may make. -/
inductive Proper : Declaration → Prop
  | url (os : Option String) (name url : String) : Proper ⟨os, name, .str url⟩
  | fields (name : String) {entries : List (Value × Value)} {url : String} :
      (⟨entries⟩ : Dict).getString? "url" = some (.str url) → Proper ⟨none, name, .dict entries⟩
  | withoutUrl (os name : String) : Proper ⟨some os, name, .null⟩

/-- The dependency that is read off a declaration. -/
def dependency : Declaration → Dependency
  | ⟨none, name, spec⟩ =>
    ⟨name, Dependency.url? spec, none, "deps", "deps[" ++ Text.quoted name ++ "]"⟩
  | ⟨some os, name, spec⟩ =>
    ⟨name, Dependency.url? spec, some os, "deps_os",
      "deps_os[" ++ Text.quoted os ++ "][" ++ Text.quoted name ++ "]"⟩

theorem name_dependency (d : Declaration) : d.dependency.name = d.name := by
  obtain ⟨_ | os, name, spec⟩ := d
  · rfl
  · rfl

theorem Proper.yields {d : Declaration} (h : d.Proper) : d.Yields d.dependency := by
  cases h with
  | url os name url =>
      cases os with
      | none => exact ⟨rfl, rfl, .string url, by simp [dependency, Dependency.url?]⟩
      | some os => exact ⟨rfl, rfl, .string url, by simp [dependency, Dependency.url?]⟩
  | fields name hurl =>
      have hdependency : Dependency.url? (.dict _) = some _ :=
        Option.bind_eq_some_iff.mpr ⟨_, hurl, rfl⟩
      refine ⟨rfl, rfl, ?_, ?_⟩
      · rw [dependency, hdependency]
        exact .field hurl
      · simp [dependency, hdependency]
  | withoutUrl os name => exact ⟨rfl, rfl, .nothing, by simp [dependency, Dependency.url?]⟩

end Declaration

/-! ## Reading off -/

namespace Manifest

variable {m : Manifest} {deps : List (String × Value)}
  {systems : List (String × List (String × Value))}

theorem entriesOf_eq {name : String} {entries : List (Value × Value)}
    (h : m.scope.HasEntries name entries) : m.entriesOf name = entries := by
  rcases h with h | ⟨h, rfl⟩
  · rw [entriesOf, h]
    rfl
  · rw [entriesOf, h]
    rfl

theorem filterMap_ofPair? (entries : List (String × Value)) :
    (stringKeyed entries).filterMap Dependency.ofPair? =
      entries.map fun e => Declaration.dependency ⟨none, e.1, e.2⟩ := by
  rw [stringKeyed, List.filterMap_map]
  exact congrFun List.filterMap_eq_map entries

theorem filterMap_ofOsPair? (os : String) (entries : List (String × Value)) :
    (stringKeyed entries).filterMap (Dependency.ofOsPair? os) =
      entries.map fun e => Declaration.dependency ⟨some os, e.1, e.2⟩ := by
  rw [stringKeyed, List.filterMap_map]
  exact congrFun List.filterMap_eq_map entries

/-- Whatever its scope declares is a dependency of a manifest, in order. -/
theorem dependencies_eq (h : m.scope.Declares deps systems) :
    m.dependencies = (Declaration.all deps systems).map Declaration.dependency := by
  have hsystem : ∀ system ∈ systems,
      Dependency.ofOs (.str system.1, .dict (stringKeyed system.2)) =
        (system.2.map fun e => (⟨some system.1, e.1, e.2⟩ : Declaration)).map
          Declaration.dependency := by
    intro system _
    rw [Dependency.ofOs, filterMap_ofOsPair?, List.map_map]
    rfl
  rw [dependencies, entriesOf_eq h.deps, entriesOf_eq h.systems, filterMap_ofPair?, stringKeyed,
    List.map_map, List.flatMap_map, Declaration.all, List.map_append, List.map_map,
    List.map_flatMap]
  exact congrArg _ (List.flatMap_congr hsystem)

end Manifest

/-! ## Valid scopes -/

namespace Scope

variable {s : Scope}

theorem proper_of_dep {name : String} {spec : Value}
    (h : (Shape.oneOf [.str, .record [.mk "url" true .str]]).Conforms spec) :
    Declaration.Proper ⟨none, name, spec⟩ := by
  obtain ⟨shape, hshape, hspec⟩ := Shape.conforms_oneOf_iff.mp h
  simp only [List.mem_cons, List.not_mem_nil, or_false] at hshape
  rcases hshape with rfl | rfl
  · obtain ⟨url, rfl⟩ := Shape.conforms_str_iff.mp hspec
    exact .url none name url
  · cases hspec with
    | @record _ entries _ hvalues hrequired =>
        have hfound := Dict.isSome_getString?.mpr (hrequired (.mk "url" true .str)
          List.mem_cons_self rfl)
        obtain ⟨v, hv⟩ := Option.isSome_iff_exists.mp hfound
        have hshape := hvalues _ (Dict.mem_of_getString? hv) (.mk "url" true .str) rfl
        obtain ⟨url, rfl⟩ := Shape.conforms_str_iff.mp hshape
        exact .fields name hv

theorem proper_of_osDep {os name : String} {spec : Value}
    (h : (Shape.oneOf [.str, .null]).Conforms spec) :
    Declaration.Proper ⟨some os, name, spec⟩ := by
  obtain ⟨shape, hshape, hspec⟩ := Shape.conforms_oneOf_iff.mp h
  simp only [List.mem_cons, List.not_mem_nil, or_false] at hshape
  rcases hshape with rfl | rfl
  · obtain ⟨url, rfl⟩ := Shape.conforms_str_iff.mp hspec
    exact .url (some os) name url
  · rw [Shape.conforms_null_iff.mp hspec]
    exact .withoutUrl os name

theorem exists_systems {entries : List (String × Value)} {value : Shape}
    (h : ∀ e ∈ entries, (Shape.mapOf value).Conforms e.2) :
    ∃ systems : List (String × List (String × Value)),
      entries = systems.map (fun system => (system.1, .dict (stringKeyed system.2))) ∧
        ∀ system ∈ systems, ∀ e ∈ system.2, value.Conforms e.2 := by
  induction entries with
  | nil => exact ⟨[], rfl, nofun⟩
  | cons entry entries ih =>
      obtain ⟨hfirst, hrest⟩ := List.forall_mem_cons.mp h
      obtain ⟨name, v⟩ := entry
      obtain ⟨inner, rfl, hinner⟩ := Shape.conforms_mapOf_iff.mp hfirst
      obtain ⟨systems, rfl, hsystems⟩ := ih hrest
      exact ⟨(name, inner) :: systems, rfl, List.forall_mem_cons.mpr ⟨hinner, hsystems⟩⟩

/-- A valid scope declares dependencies, each as a manifest may. -/
theorem exists_declares (hvalid : s.mismatches = []) :
    ∃ deps systems, s.Declares deps systems ∧
      ∀ d ∈ Declaration.all deps systems, d.Proper := by
  have hdepsShape : Shape.ofName? "deps" =
      some (.mapOf (.oneOf [.str, .record [.mk "url" true .str]])) := rfl
  have hsystemsShape : Shape.ofName? "deps_os" =
      some (.mapOf (.mapOf (.oneOf [.str, .null]))) := rfl
  obtain ⟨deps, hdeps, hspecs⟩ :=
    exists_hasEntries fun v hv => conforms_of_get? hvalid hv hdepsShape
  obtain ⟨entries, hentries, hsystems⟩ :=
    exists_hasEntries fun v hv => conforms_of_get? hvalid hv hsystemsShape
  obtain ⟨systems, rfl, hosSpecs⟩ := exists_systems hsystems
  refine ⟨deps, systems, ⟨hdeps, hentries⟩, fun d hd => ?_⟩
  rcases List.mem_append.mp hd with hd | hd
  · obtain ⟨e, he, rfl⟩ := List.mem_map.mp hd
    exact proper_of_dep (hspecs e he)
  · obtain ⟨system, hsystem, hd⟩ := List.mem_flatMap.mp hd
    obtain ⟨e, he, rfl⟩ := List.mem_map.mp hd
    exact proper_of_osDep (hosSpecs system hsystem e he)

end Scope

theorem Manifest.forall₂_yields {m : Manifest} {deps : List (String × Value)}
    {systems : List (String × List (String × Value))} (h : m.scope.Declares deps systems)
    (hproper : ∀ d ∈ Declaration.all deps systems, d.Proper) :
    List.Forall₂ Declaration.Yields (Declaration.all deps systems) m.dependencies := by
  rw [dependencies_eq h, List.forall₂_map_right_iff, List.forall₂_same]
  intro d hd
  exact (hproper d hd).yields

end DepsManifest
