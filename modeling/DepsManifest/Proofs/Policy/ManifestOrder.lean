import DepsManifest.Proofs.Policy.Order
import DepsManifest.Proofs.Policy.Places
import Mathlib.Data.List.Nodup
/-! # The order of the manifests does not matter

A policy makes the same of manifests with distinct paths in any order: the same findings in the same
order with the same data, the same numbers and the same verdict (`Policy.apply_perm`).

This does not follow from the findings being sorted. The order of findings is not total: two
findings about one manifest can agree in all that the order looks at and differ in their data. They
then stay in the order in which they were found, and the cap can fall between them. But

  * findings about different manifests never compare equal, as the order looks at their paths
    (`pathKey_eq_of_order`);
  * so those that do compare equal are found in one manifest, and in which order that is does not
    depend on the manifests around it (`Policy.tied_found_perm`);
  * and a stable sort is known by its elements and by the order of those that compare equal
    (`StablySorted.unique`).

With two manifests at one path the second step fails, and the theorem with it: of what is found in
both, the order of the two decides what comes first.
-/
namespace DepsManifest

theorem filter_key_perm {α β : Type} [DecidableEq β] {key : α → β} {l l' : List α}
    (hkeys : (l.map key).Nodup) (hperm : l.Perm l') (k : β) :
    (l.filter fun a => decide (key a = k)) = l'.filter fun a => decide (key a = k) := by
  have hone : ∀ {l : List α}, (l.filter fun a => decide (key a = k)).Pairwise
      fun a b => key a = key b := by
    intro l
    refine List.pairwise_of_forall_mem_list fun a ha b hb => ?_
    rw [of_decide_eq_true (List.mem_filter.mp ha).2, of_decide_eq_true (List.mem_filter.mp hb).2]
  refine List.Perm.eq_of_pairwise (fun a b ha hb hab _ => ?_) hone hone (hperm.filter _)
  have ha : a ∈ l := (List.mem_filter.mp ha).1
  have hb : b ∈ l := hperm.mem_iff.mpr (List.mem_filter.mp hb).1
  exact List.inj_on_of_nodup_map hkeys ha hb hab

namespace Policy

variable {manifests manifests' : List Manifest}

theorem tied_flatMap (f : Finding) (find : Manifest → List Finding)
    (hfind : ∀ m, ∀ g ∈ find m, g.pathKey = m.path) (manifests : List Manifest) :
    tied Finding.order f (manifests.flatMap find) =
      (manifests.filter fun m => decide (m.path = f.pathKey)).flatMap
        fun m => tied Finding.order f (find m) := by
  induction manifests with
  | nil => rfl
  | cons m manifests ih =>
      have hsplit : tied Finding.order f ((m :: manifests).flatMap find) =
          tied Finding.order f (find m) ++ tied Finding.order f (manifests.flatMap find) := by
        rw [List.flatMap_cons]
        exact List.filter_append ..
      rw [hsplit, ih, List.filter_cons]
      split
      · rfl
      · rename_i hpath
        have hnone : tied Finding.order f (find m) = [] := by
          refine List.filter_eq_nil_iff.mpr fun g hg htied => hpath ?_
          rw [← hfind m g hg, ← Finding.pathKey_eq_of_order (eq_of_beq htied)]
          exact decide_eq_true rfl
        rw [hnone, List.nil_append]

/-- Findings that compare equal are found in the same order, whatever the order of the manifests. -/
theorem tied_found_perm (p : Policy) (hpaths : (manifests.map (·.path)).Nodup)
    (hperm : manifests.Perm manifests') (f : Finding) :
    tied Finding.order f (p.found manifests) = tied Finding.order f (p.found manifests') := by
  have hcheck : ∀ c : Check, tied Finding.order f (c.run p manifests) =
      tied Finding.order f (c.run p manifests') := by
    intro c
    unfold Check.run
    cases p.severityFor c.id with
    | none => rfl
    | some severity =>
        have hfind : ∀ m, ∀ g ∈ c.findings severity m, g.pathKey = m.path :=
          fun m g hg => Check.pathKey_of_mem hg
        dsimp only
        rw [tied_flatMap f _ hfind, tied_flatMap f _ hfind, filter_key_perm hpaths hperm]
  unfold tied at hcheck ⊢
  rw [found, found, List.filter_flatMap, List.filter_flatMap]
  exact List.flatMap_congr fun c _ => hcheck c

theorem perm_found (p : Policy) (hperm : manifests.Perm manifests') :
    (p.found manifests).Perm (p.found manifests') := by
  refine List.Perm.flatMap_left _ fun c _ => ?_
  unfold Check.run
  cases p.severityFor c.id with
  | none => exact List.Perm.refl _
  | some severity => exact hperm.flatMap_right _

/-- A policy makes the same of manifests with distinct paths in any order: the same findings in the
same order with the same data, the same numbers and the same verdict. -/
theorem apply_perm (hpaths : (manifests.map (·.path)).Nodup) (hperm : manifests.Perm manifests')
    (p : Policy) : p.apply manifests = p.apply manifests' := by
  have hfindings : p.findings manifests = p.findings manifests' :=
    (p.stablySorted_findings manifests).unique (p.stablySorted_findings manifests')
      (p.perm_found hperm) (p.tied_found_perm hpaths hperm)
  unfold apply
  rw [hfindings, hperm.length_eq]

/-- A manifest that takes one dependency from two addresses on one host, which is not allowed, for
two operating systems. -/
def twiceStrayManifest : Manifest :=
  .ofPath "a/DEPS" (.ofPairs [("allowed_hosts", .list []),
    ("deps_os", .dict [(.str "mac", .dict [(.str "x", .str "https://evil.example/1")]),
      (.str "win", .dict [(.str "x", .str "https://evil.example/2")])])])

def otherStrayManifest : Manifest :=
  .ofPath "./b/DEPS" (.ofPairs [("allowed_hosts", .list []),
    ("deps", .dict [(.str "y", .str "https://evil.example/3")])])

/-- A policy that looks at hosts and keeps one finding. -/
def oneFindingPolicy : Policy :=
  ⟨"default", .error, 1, .ofList [("deps.allowed_hosts", ⟨true, .error⟩)]⟩

/-- The cap falls between two findings that compare equal, and the same one is kept. -/
theorem apply_perm_tied :
    ([twiceStrayManifest, otherStrayManifest].map (·.path)).Nodup ∧
      [twiceStrayManifest, otherStrayManifest].Perm [otherStrayManifest, twiceStrayManifest] ∧
      oneFindingPolicy.apply [twiceStrayManifest, otherStrayManifest] =
        oneFindingPolicy.apply [otherStrayManifest, twiceStrayManifest] := by
  have hpaths : ([twiceStrayManifest, otherStrayManifest].map (·.path)).Nodup := by decide
  have hperm : [twiceStrayManifest, otherStrayManifest].Perm
      [otherStrayManifest, twiceStrayManifest] := .swap ..
  exact ⟨hpaths, hperm, apply_perm hpaths hperm _⟩

end Policy

end DepsManifest
