import DepsManifest.Proofs.Policy.Assignments
import DepsManifest.Proofs.Policy.Findings
import DepsManifest.Proofs.Schema.Distinct
import DepsManifest.Proofs.Value.Constructible
/-! # Findings are told apart by what identifies them

A finding is identified by its check, its code, the path of its manifest and the path of the value
that it is about, and its fingerprint is the digest of these four with bars between them
(`Finding.hashed`). `Policy.findings_identified` says of the findings of one policy, about manifests
with distinct paths that come from texts:

  * each has a fingerprint, and it is that digest;
  * no two of them have the same four;
  * if no path of a manifest has a bar, no two of them give the same text to be hashed.

That says nothing of the digest. The hypothesis on bars is needed for the third point alone: checks
and codes have none, but a path may, and then two different quadruples can give one text. The paths
of values come last and may hold whatever keys do: bars, quotes and brackets (`identity_inj`).

## The way of the proof

Each check finds what it finds at values with distinct paths: mismatches (`Scope.nodup_paths`),
dependencies, which are the keys of `deps` and of the dicts in `deps_os`
(`Addressable.nodup_valuePaths`), and the places of `recursedeps`. Findings of several checks differ
in the check, and about several manifests in the path; `nodup_map_flatMap` puts this together.

Paths tell keys apart only if names are told apart from paths and no dict holds a key twice
(`Manifest.Addressable`). The scope of a text has this as long as the functions make only values
that can be constructed, which is what the theorem asks of them.
-/
namespace DepsManifest

open Value (DistinctKeys Constructible)
open ValuePath (Below IsRoot Apart)

/-! ## Manifests of texts -/

/-- In the scope of a manifest, names are told apart from paths, and no dict holds a key twice. -/
structure Manifest.Addressable (m : Manifest) : Prop where
  isRoot : ∀ name, m.scope.contains name = true → IsRoot name
  distinctKeys : m.scope.Binds DistinctKeys

/-- A text gives such a scope, if the functions give values that can be constructed. -/
theorem Manifest.addressable_of_executeText {m : Manifest} {fs : Functions}
    (hfs : fs.Keep Constructible) {text : String} (h : Module.executeText fs text = .ok m.scope) :
    m.Addressable := by
  obtain ⟨module, hmodule, hexecute⟩ := Module.executeText_eq_ok_iff.mp h
  have hempty : Scope.empty.Binds Constructible := by
    intro n v hv
    cases hv
  have hbinds : m.scope.Binds Constructible :=
    Module.executeFrom_closed Value.closed_constructible hfs hempty hexecute
  exact ⟨fun name hname => (Module.exists_assignment hmodule hexecute hname).1,
    fun name v hv => (hbinds name v hv).distinctKeys⟩

/-! ## Dependencies -/

namespace Dependency

theorem nodup_valuePaths_filterMap {entries : List (Value × Value)} {path : String}
    {of : Value × Value → Option Dependency} (hpath : path ≠ "")
    (hof : ∀ e d, of e = some d → d.valuePath = Mismatch.keyPath path e.1)
    (hkeys : (entries.map (·.1)).Nodup) : ((entries.filterMap of).map (·.valuePath)).Nodup := by
  refine List.pairwise_map.mpr (List.pairwise_filterMap.mpr ?_)
  refine (List.pairwise_map.mp hkeys).imp fun {e e'} hne d hd d' hd' heq => ?_
  rw [hof e d hd, hof e' d' hd'] at heq
  refine ValuePath.apart_keyPath hpath hne _ .here ?_
  rw [heq]
  exact .here

end Dependency

namespace Manifest

variable {m : Manifest}

theorem Addressable.keys_entriesOf (h : m.Addressable) (name : String) :
    ((m.entriesOf name).map (·.1)).Nodup ∧ ∀ e ∈ m.entriesOf name, DistinctKeys e.2 := by
  rw [Manifest.entriesOf]
  cases hget : m.scope.get? name with
  | none => exact ⟨.nil, List.forall_mem_nil _⟩
  | some v =>
      cases h.distinctKeys name v hget with
      | dict hkeys hvalues => exact ⟨hkeys, hvalues⟩
      | _ => exact ⟨.nil, List.forall_mem_nil _⟩

/-- The dependencies of a manifest have distinct paths. -/
theorem Addressable.nodup_valuePaths (h : m.Addressable) :
    (m.dependencies.map (·.valuePath)).Nodup := by
  have hdeps : IsRoot "deps" := ⟨by decide, by decide⟩
  have hdepsOs : IsRoot "deps_os" := ⟨by decide, by decide⟩
  obtain ⟨hkeys, -⟩ := h.keys_entriesOf "deps"
  obtain ⟨hkeysOs, hvaluesOs⟩ := h.keys_entriesOf "deps_os"
  rw [dependencies, List.map_append, List.nodup_append]
  refine ⟨Dependency.nodup_valuePaths_filterMap hdeps.ne_empty
    (fun _ _ hd => (Dependency.place_of_ofPair? hd).2) hkeys, ?_, ?_⟩
  · refine ValuePath.nodup_flatMap (fun e => Mismatch.keyPath "deps_os" e.1) ?_
      (fun e _ d hd => (Dependency.place_of_mem_ofOs hd).2) ?_
    · exact (List.pairwise_map.mp hkeysOs).imp fun hne =>
        ValuePath.apart_keyPath hdepsOs.ne_empty hne
    · intro e he
      unfold Dependency.ofOs
      split
      · cases hvaluesOs _ he with
        | dict hkeys _ =>
            exact Dependency.nodup_valuePaths_filterMap (Dependency.keyPath_os_ne_empty _)
              (fun _ _ hd => (Dependency.place_of_ofOsPair? hd).2) hkeys
      · exact .nil
  · intro p hp q hq heq
    obtain ⟨d, hd, rfl⟩ := List.mem_map.mp hp
    obtain ⟨d', hd', rfl⟩ := List.mem_map.mp hq
    obtain ⟨e, -, hpair⟩ := List.mem_filterMap.mp hd
    obtain ⟨e', -, hos⟩ := List.mem_flatMap.mp hd'
    have hbelow : Below "deps" d.valuePath := by
      rw [(Dependency.place_of_ofPair? hpair).2]
      exact ValuePath.below_keyPath hdeps.ne_empty e.1
    have hbelow' : Below "deps_os" d'.valuePath :=
      (ValuePath.below_keyPath hdepsOs.ne_empty e'.1).trans (Dependency.place_of_mem_ofOs hos).2
    rw [heq] at hbelow
    exact ValuePath.apart_of_isRoot hdeps hdepsOs (by decide) _ hbelow hbelow'

theorem nodup_unknownRecursed (m : Manifest) :
    ((m.unknownRecursed).map (·.2)).Nodup := by
  rw [unknownRecursed]
  refine List.pairwise_map.mpr (List.pairwise_filterMap.mpr ?_)
  refine (List.pairwise_map.mp (Value.nodup_indices _)).imp fun {a b} hne x hx y hy => ?_
  obtain ⟨_, -, hx⟩ := Option.bind_eq_some_iff.mp hx
  obtain ⟨_, -, hy⟩ := Option.bind_eq_some_iff.mp hy
  split at hx
  · cases hx
  · split at hy
    · cases hy
    · cases hx
      cases hy
      exact hne

end Manifest

/-! ## Findings -/

namespace Finding

/-- The text whose digest is the fingerprint of a finding. -/
def hashed (f : Finding) : String := identity f.checkId f.code f.pathKey (f.valuePath?.getD "")

/-- What a finding is identified by. -/
def key (f : Finding) : String × String × Option String × Option String :=
  (f.checkId, f.code, f.location.map (·.path), f.valuePath?)

end Finding

theorem append_cons_inj {a a' r r' : List Char} {c : Char} (ha : c ∉ a) (ha' : c ∉ a')
    (h : a ++ c :: r = a' ++ c :: r') : a = a' ∧ r = r' := by
  have hfirst : ∀ {cs : List Char} (rest : List Char), c ∉ cs →
      (cs ++ c :: rest).takeWhile (· ≠ c) = cs := by
    intro cs rest hcs
    refine Text.takeWhile_append_eq (fun d hd => decide_eq_true ?_) ?_
    · rintro rfl
      exact hcs hd
    · rintro _ ⟨⟩
      exact decide_eq_false fun h => h rfl
  have hsame : a = a' := by
    rw [← hfirst r ha, h, hfirst r' ha']
  subst hsame
  exact ⟨rfl, (List.cons.inj (List.append_cancel_left h)).2⟩

theorem Finding.toList_identity (checkId code manifestPath valuePath : String) :
    (identity checkId code manifestPath valuePath).toList =
      checkId.toList ++ '|' :: (code.toList ++ '|' :: (manifestPath.toList ++ '|' ::
        valuePath.toList)) := by
  have hjoined : identity checkId code manifestPath valuePath =
      checkId ++ "|" ++ code ++ "|" ++ manifestPath ++ "|" ++ valuePath := rfl
  simp [hjoined]

/-- Four texts are what stands between the bars, if only the last one has bars. -/
theorem Finding.identity_inj {a a' b b' c c' d d' : String} (ha : '|' ∉ a.toList)
    (ha' : '|' ∉ a'.toList) (hb : '|' ∉ b.toList) (hb' : '|' ∉ b'.toList) (hc : '|' ∉ c.toList)
    (hc' : '|' ∉ c'.toList) (h : identity a b c d = identity a' b' c' d') :
    a = a' ∧ b = b' ∧ c = c' ∧ d = d' := by
  have hchars := congrArg String.toList h
  rw [toList_identity, toList_identity] at hchars
  obtain ⟨hfirst, hchars⟩ := append_cons_inj ha ha' hchars
  obtain ⟨hsecond, hchars⟩ := append_cons_inj hb hb' hchars
  obtain ⟨hthird, hfourth⟩ := append_cons_inj hc hc' hchars
  exact ⟨String.toList_injective hfirst, String.toList_injective hsecond,
    String.toList_injective hthird, String.toList_injective hfourth⟩

namespace Check

variable {severity : Severity} {m : Manifest} {c : Check} {f : Finding}

/-- What a check finds in a manifest, it finds at values with distinct paths. -/
theorem nodup_valuePath? (h : m.Addressable) (c : Check) (severity : Severity) :
    ((c.findings severity m).map Finding.valuePath?).Nodup := by
  cases c with
  | schemaMismatch =>
      have hpaths : (schemaMismatch.findings severity m).map Finding.valuePath? =
          (m.scope.mismatches.map (·.path)).map some := by
        rw [findings, List.map_map, List.map_map]
        exact List.map_congr_left fun found _ => m.valuePath?_mismatchFinding severity found
      rw [hpaths]
      exact List.Nodup.map (fun _ _ h => Option.some.inj h)
        (Scope.nodup_paths h.isRoot h.distinctKeys)
  | allowedHosts =>
      rw [findings]
      split
      · exact .nil
      · refine List.pairwise_map.mpr (List.pairwise_filterMap.mpr ?_)
        refine (List.pairwise_map.mp h.nodup_valuePaths).imp fun {d d'} hne f hf f' hf' => ?_
        obtain ⟨_, -, rfl⟩ := Option.map_eq_some_iff.mp hf
        obtain ⟨_, -, rfl⟩ := Option.map_eq_some_iff.mp hf'
        rw [m.valuePath?_hostFinding, m.valuePath?_hostFinding]
        exact fun heq => hne (Option.some.inj heq)
  | unknownDependency =>
      rw [findings]
      refine List.pairwise_map.mpr (List.pairwise_map.mpr ?_)
      refine (List.pairwise_map.mp m.nodup_unknownRecursed).imp fun {e e'} hne => ?_
      rw [m.valuePath?_recursedFinding, m.valuePath?_recursedFinding]
      intro heq
      have hbelow : Below (Mismatch.indexPath "recursedeps" e'.2)
          (Mismatch.indexPath "recursedeps" e.2) := by
        rw [Option.some.inj heq]
        exact .here
      exact ValuePath.apart_indexPath hne _ .here hbelow

theorem fingerprint_of_mem (h : f ∈ c.findings severity m) :
    f.location.map (·.path) = some m.path ∧ f.valuePath?.isSome = true ∧
      f.fingerprint = some (Sha256.hexDigest f.hashed) := by
  obtain ⟨name, path, -, hpath, hlocation⟩ := exists_concern h
  refine ⟨by rw [hlocation]; rfl, by rw [hpath]; rfl, ?_⟩
  cases c with
  | schemaMismatch =>
      obtain ⟨found, -, rfl⟩ := List.mem_map.mp h
      rw [Finding.hashed, m.valuePath?_mismatchFinding]
      rfl
  | allowedHosts =>
      rw [findings] at h
      split at h
      · cases h
      · obtain ⟨d, -, hfound⟩ := List.mem_filterMap.mp h
        obtain ⟨_, -, rfl⟩ := Option.map_eq_some_iff.mp hfound
        rw [Finding.hashed, m.valuePath?_hostFinding]
        rfl
  | unknownDependency =>
      obtain ⟨_, -, rfl⟩ := List.mem_map.mp h
      rw [Finding.hashed, m.valuePath?_recursedFinding]
      rfl

end Check

/-! ## All findings -/

theorem nodup_map_flatMap {α β γ δ : Type} {l : List α} {f : α → List β} {key : β → γ}
    (mark : γ → δ) {own : α → δ} (hown : (l.map own).Nodup)
    (hmark : ∀ a ∈ l, ∀ b ∈ f a, mark (key b) = own a) (hnodup : ∀ a ∈ l, ((f a).map key).Nodup) :
    ((l.flatMap f).map key).Nodup := by
  rw [List.map_flatMap]
  refine List.nodup_flatMap.mpr ⟨hnodup, ?_⟩
  refine (List.pairwise_map.mp hown).imp_of_mem fun {a a'} ha ha' hne k hk hk' => hne ?_
  obtain ⟨b, hb, rfl⟩ := List.mem_map.mp hk
  obtain ⟨b', hb', heq⟩ := List.mem_map.mp hk'
  rw [← hmark a ha b hb, ← heq, hmark a' ha' b' hb']

namespace Policy

variable {manifests : List Manifest}

theorem nodup_key_found (p : Policy) (haddressable : ∀ m ∈ manifests, m.Addressable)
    (hpaths : (manifests.map (·.path)).Nodup) : ((p.found manifests).map Finding.key).Nodup := by
  have hids : (Check.all.map Check.id).Nodup := by decide
  have hplaces : (manifests.map fun m => some m.path).Nodup := by
    have hmap := List.Nodup.map (f := some) (fun _ _ h => Option.some.inj h) hpaths
    rwa [List.map_map] at hmap
  refine nodup_map_flatMap Prod.fst hids (fun c _ f hf => ?_) fun c _ => ?_
  · obtain ⟨severity, -, m, -, hf⟩ := Check.mem_run_iff.mp hf
    exact (Check.id_and_code_of_mem hf).1
  · cases hseverity : p.severityFor c.id with
    | none =>
        rw [Check.run, hseverity]
        exact .nil
    | some severity =>
        rw [Check.run_eq_flatMap hseverity]
        refine nodup_map_flatMap (fun k => k.2.2.1) hplaces (fun m _ f hf => ?_) fun m hm => ?_
        · exact (Check.fingerprint_of_mem hf).1
        · refine List.Nodup.of_map (fun k => k.2.2.2) ?_
          rw [List.map_map]
          exact Check.nodup_valuePath? (haddressable m hm) c severity

/-- Every finding about manifests that come from texts has a fingerprint, the digest of its check,
its code, the path of its manifest and the path of a value with bars between them. If the paths of
the manifests are distinct, no two findings have the same four. If moreover none of those paths has
a bar, no two findings have the same text to be hashed. The texts may call any functions, as long as
those make only values that can be constructed of constructible ones. -/
theorem findings_identified (p : Policy)
    (hexecuted : ∀ m ∈ manifests, ∃ fs text, Functions.Keep Constructible fs ∧
      Module.executeText fs text = .ok m.scope)
    (hpaths : (manifests.map (·.path)).Nodup) :
    (∀ f ∈ p.findings manifests, (∃ m ∈ manifests, f.location.map (·.path) = some m.path) ∧
      f.valuePath?.isSome = true ∧ f.fingerprint = some (Sha256.hexDigest f.hashed)) ∧
    ((p.findings manifests).map Finding.key).Nodup ∧
    ((∀ m ∈ manifests, '|' ∉ m.path.toList) →
      ((p.findings manifests).map Finding.hashed).Nodup) := by
  have haddressable : ∀ m ∈ manifests, m.Addressable := by
    intro m hm
    obtain ⟨fs, text, hfs, htext⟩ := hexecuted m hm
    exact Manifest.addressable_of_executeText hfs htext
  have hperm : (p.findings manifests).Perm (p.found manifests) :=
    (p.stablySorted_findings manifests).perm
  have hkeys : ((p.findings manifests).map Finding.key).Nodup :=
    (hperm.map _).nodup_iff.mpr (p.nodup_key_found haddressable hpaths)
  have hfound : ∀ f ∈ p.findings manifests, ∃ c severity, ∃ m ∈ manifests,
      f ∈ Check.findings severity m c := by
    intro f hf
    obtain ⟨c, severity, -, m, hm, hc⟩ := mem_found_iff.mp (hperm.mem_iff.mp hf)
    exact ⟨c, severity, m, hm, hc⟩
  refine ⟨fun f hf => ?_, hkeys, fun hbars => ?_⟩
  · obtain ⟨c, severity, m, hm, hc⟩ := hfound f hf
    obtain ⟨hplace, hpath, hfingerprint⟩ := Check.fingerprint_of_mem hc
    exact ⟨⟨m, hm, hplace⟩, hpath, hfingerprint⟩
  · have hcode : ∀ c ∈ Check.all, '|' ∉ c.id.toList ∧ ∀ code ∈ c.codes, '|' ∉ code.toList := by
      decide
    refine List.pairwise_map.mpr ((List.pairwise_map.mp hkeys).imp_of_mem
      fun {f g} hf hg hne heq => hne ?_)
    obtain ⟨c, severity, m, hm, hc⟩ := hfound f hf
    obtain ⟨c', severity', m', hm', hc'⟩ := hfound g hg
    obtain ⟨hid, hmem⟩ := Check.id_and_code_of_mem hc
    obtain ⟨hid', hmem'⟩ := Check.id_and_code_of_mem hc'
    obtain ⟨hplace, hpath, -⟩ := Check.fingerprint_of_mem hc
    obtain ⟨hplace', hpath', -⟩ := Check.fingerprint_of_mem hc'
    obtain ⟨path, hpath⟩ := Option.isSome_iff_exists.mp hpath
    obtain ⟨path', hpath'⟩ := Option.isSome_iff_exists.mp hpath'
    rw [Finding.hashed, Finding.hashed, Check.pathKey_of_mem hc, Check.pathKey_of_mem hc', hpath,
      hpath'] at heq
    obtain ⟨hsameId, hsameCode, hsamePath, hsameValue⟩ := Finding.identity_inj
      (hid ▸ (hcode c c.mem_all).1) (hid' ▸ (hcode c' c'.mem_all).1)
      ((hcode c c.mem_all).2 _ hmem) ((hcode c' c'.mem_all).2 _ hmem')
      (hbars m hm) (hbars m' hm') heq
    dsimp only [Option.getD_some] at hsameValue
    rw [Finding.key, Finding.key, hplace, hplace', hpath, hpath', hsameId, hsameCode, hsamePath,
      hsameValue]

def barredText : String := "vars=\x7b'|\"]':None\x7d"

def barredScope : Scope := ⟨⟨[("vars", ⟨.dict [(.str "|\"]", .null)], some 1⟩)], by decide⟩⟩

/-- The text under two paths. -/
def barredManifests : List Manifest := [⟨"a/DEPS", barredScope⟩, ⟨"b/DEPS", barredScope⟩]

theorem findings_identified_barred : Module.executeText .strOnly barredText = .ok barredScope ∧
    (shapePolicy.found barredManifests).map Finding.hashed =
      ["schema.mismatch|type_mismatch|a/DEPS|vars[\"|\\\"]\"]",
        "schema.mismatch|type_mismatch|b/DEPS|vars[\"|\\\"]\"]"] ∧
    ((shapePolicy.findings barredManifests).map Finding.hashed).Nodup := by
  have htokens : Token.ofText barredText = .ok [⟨.name "vars", 1, 0⟩, ⟨.op .assign, 1, 4⟩,
      ⟨.op .leftBrace, 1, 5⟩, ⟨.literal .text "|\"]", 1, 6⟩, ⟨.op .colon, 1, 11⟩,
      ⟨.name "None", 1, 12⟩, ⟨.op .rightBrace, 1, 16⟩, ⟨.newline, 1, 0⟩, ⟨.endOfText, 1, 0⟩] := by
    decide +kernel
  have hexecute : Module.executeText .strOnly barredText = .ok barredScope := by
    rw [Module.executeText, Module.ofText, htokens]
    rfl
  have hfunctions : Functions.strOnly.Keep Constructible :=
    Functions.keep_strOnly Value.closed_constructible
  have hexecuted : ∀ m ∈ barredManifests, ∃ fs text, Functions.Keep Constructible fs ∧
      Module.executeText fs text = .ok m.scope :=
    List.forall_mem_cons.mpr ⟨⟨_, _, hfunctions, hexecute⟩,
      List.forall_mem_singleton.mpr ⟨_, _, hfunctions, hexecute⟩⟩
  obtain ⟨-, -, hhashed⟩ := findings_identified shapePolicy hexecuted (by decide)
  exact ⟨hexecute, by decide +kernel, hhashed (by decide)⟩

end Policy

end DepsManifest
