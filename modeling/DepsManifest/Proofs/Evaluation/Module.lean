import DepsManifest.Evaluation.Manifest
import DepsManifest.Proofs.Except
import DepsManifest.Proofs.NameMap
import Mathlib.Data.List.Perm.Basic
/-! # What executing a module does

No statement can read what another assigned. So executing a module is to evaluate each of its
statements on its own, and to bind what they assign (`Statement.Binds`); it fails only where one of
them binds nothing, or where two assign to one name. `Module.execute_eq_ok_iff` says so: a scope is
the map of what the statements bind, one by one, with all names distinct.

The induction over the statements is `executeFrom_eq_ok_iff`, for any scope to begin with. What is
known of modules that can be executed is read off it:

  * what a statement binds stands in the scope under its name (`exists_get?_of_mem`), and nothing
    else does (`exists_binds`);
  * no two statements have the same target (`nodup_targets`, `eq_of_target?_eq`);
  * the statements may stand in any order (`execute_perm`), as a map of pairs with distinct names
    does not depend on their order.
-/
namespace DepsManifest

/-! ## Single statements -/

namespace Statement

/-- The name that a statement assigns to. -/
def target? (s : Statement) : Option String := s.assignment.toOption.map (·.1)

/-- `s.Binds fs (name, b)`: on its own, the statement binds the name to the value of its expression,
at its own line. -/
def Binds (fs : Functions) (s : Statement) (entry : String × Binding) : Prop :=
  ∃ e v, s.assignment = .ok (entry.1, e) ∧ e.value fs (entry.1 == varsName) = .ok v ∧
    entry.2 = ⟨v, some s.line⟩

variable {fs : Functions} {s : Statement} {entry other : String × Binding}

theorem Binds.target?_eq (h : s.Binds fs entry) : s.target? = some entry.1 := by
  obtain ⟨e, v, hassign, -, -⟩ := h
  rw [target?, hassign]
  rfl

theorem Binds.unique (h : s.Binds fs entry) (hother : s.Binds fs other) : entry = other := by
  obtain ⟨name, b⟩ := entry
  obtain ⟨name', b'⟩ := other
  obtain ⟨e, v, hassign, hv, rfl⟩ := h
  obtain ⟨e', v', hassign', hv', rfl⟩ := hother
  rw [hassign] at hassign'
  cases hassign'
  rw [hv] at hv'
  cases hv'
  rfl

/-- A statement can be executed in a scope that does not have its name. -/
theorem execute_eq_ok_iff {scope scope' : Scope} : s.execute fs scope = .ok scope' ↔
    ∃ entry, s.Binds fs entry ∧ scope.get? entry.1 = none ∧
      scope' = ⟨scope.bindings.insert entry.1 entry.2⟩ := by
  constructor
  · intro h
    unfold execute at h
    split at h
    · cases h
    · rename_i name e hassign
      split at h
      · cases h
      · rename_i v hv
        refine ⟨(name, ⟨v, some s.line⟩), ⟨e, v, hassign, hv, rfl⟩, ?_⟩
        cases hbound : scope.get? name with
        | some bound =>
            rw [Scope.bind, hbound] at h
            cases h
        | none =>
            rw [Scope.bind, hbound] at h
            cases h
            exact ⟨rfl, rfl⟩
  · rintro ⟨⟨name, b⟩, ⟨e, v, hassign, hv, hb⟩, hnew, rfl⟩
    dsimp only at hassign hv hb hnew
    subst hb
    simp only [execute, hassign, hv, Scope.bind, hnew]

end Statement

/-! ## Statements one after another -/

namespace Module

variable {fs : Functions} {scope : Scope}

theorem get?_eq_none_iff {name : String} :
    scope.get? name = none ↔ scope.bindings.get? name = none := by
  rw [Scope.get?, Option.map_eq_none_iff]

/-- Statements can be executed if each binds something, to names that are all different and new. -/
theorem executeFrom_eq_ok_iff {statements : List Statement} {scope' : Scope} :
    executeFrom fs scope statements = .ok scope' ↔
      ∃ entries, List.Forall₂ (Statement.Binds fs) statements entries ∧
        (entries.map (·.1)).Nodup ∧ (∀ entry ∈ entries, scope.get? entry.1 = none) ∧
        scope' = ⟨entries.foldl (fun m entry => m.insert entry.1 entry.2) scope.bindings⟩ := by
  induction statements generalizing scope with
  | nil =>
      constructor
      · intro h
        cases h
        exact ⟨[], .nil, .nil, nofun, rfl⟩
      · rintro ⟨entries, hbinds, -, -, rfl⟩
        cases hbinds
        rfl
  | cons s statements ih =>
      rw [executeFrom, bind_eq_ok]
      constructor
      · rintro ⟨next, hfirst, hrest⟩
        obtain ⟨entry, hentry, hnew, rfl⟩ := Statement.execute_eq_ok_iff.mp hfirst
        obtain ⟨entries, hbinds, hnodup, hnone, rfl⟩ := ih.mp hrest
        have hothers : ∀ other ∈ entries, other.1 ≠ entry.1 ∧ scope.get? other.1 = none := by
          intro other hother
          have hget := get?_eq_none_iff.mp (hnone other hother)
          rw [NameMap.get?_insert] at hget
          split at hget
          · cases hget
          · rename_i hne
            exact ⟨hne, get?_eq_none_iff.mpr hget⟩
        refine ⟨entry :: entries, .cons hentry hbinds, List.nodup_cons.mpr ⟨?_, hnodup⟩,
          List.forall_mem_cons.mpr ⟨hnew, fun other hother => (hothers other hother).2⟩, rfl⟩
        intro hmem
        obtain ⟨other, hother, heq⟩ := List.mem_map.mp hmem
        exact (hothers other hother).1 heq
      · rintro ⟨_, hbinds, hnodup, hnone, rfl⟩
        cases hbinds with
        | @cons _ entry _ entries hentry hbinds =>
            obtain ⟨hfirst, hrest⟩ := List.nodup_cons.mp hnodup
            obtain ⟨hnew, hothers⟩ := List.forall_mem_cons.mp hnone
            refine ⟨_, Statement.execute_eq_ok_iff.mpr ⟨entry, hentry, hnew, rfl⟩, ih.mpr
              ⟨entries, hbinds, hrest, ?_, rfl⟩⟩
            intro other hother
            have hne : other.1 ≠ entry.1 := by
              intro heq
              exact hfirst (List.mem_map.mpr ⟨other, hother, heq⟩)
            rw [get?_eq_none_iff, NameMap.get?_insert, if_neg hne]
            exact get?_eq_none_iff.mp (hothers other hother)

variable {m : Module}

/-- A module can be executed if each of its statements binds something, to names that are all
different; its scope is what they bind. -/
theorem execute_eq_ok_iff : m.execute fs = .ok scope ↔
    ∃ entries, List.Forall₂ (Statement.Binds fs) m.body entries ∧
      (entries.map (·.1)).Nodup ∧ scope = ⟨NameMap.ofList entries⟩ := by
  rw [execute, executeFrom_eq_ok_iff]
  constructor
  · rintro ⟨entries, hbinds, hnodup, -, rfl⟩
    exact ⟨entries, hbinds, hnodup, rfl⟩
  · rintro ⟨entries, hbinds, hnodup, rfl⟩
    exact ⟨entries, hbinds, hnodup, fun _ _ => rfl, rfl⟩

/-! ## What is bound -/

theorem exists_of_forall₂ {α β : Type} {R : α → β → Prop} {as : List α} {bs : List β}
    (h : List.Forall₂ R as bs) {a : α} (ha : a ∈ as) : ∃ b ∈ bs, R a b := by
  induction h with
  | nil => cases ha
  | @cons a' b as bs hfirst _ ih =>
      rcases List.mem_cons.mp ha with rfl | ha
      · exact ⟨b, List.mem_cons_self, hfirst⟩
      · obtain ⟨b', hb', hR⟩ := ih ha
        exact ⟨b', List.mem_cons_of_mem b hb', hR⟩

theorem exists_get?_of_mem (h : m.execute fs = .ok scope) {s : Statement} (hs : s ∈ m.body) :
    ∃ entry, s.Binds fs entry ∧ scope.bindings.get? entry.1 = some entry.2 := by
  obtain ⟨entries, hbinds, hnodup, rfl⟩ := execute_eq_ok_iff.mp h
  obtain ⟨entry, hentry, hsentry⟩ := exists_of_forall₂ hbinds hs
  exact ⟨entry, hsentry, (NameMap.get?_ofList hnodup).mpr hentry⟩

theorem exists_get?_of_target? (h : m.execute fs = .ok scope) {s : Statement} (hs : s ∈ m.body)
    {name : String} (htarget : s.target? = some name) :
    ∃ b, s.Binds fs (name, b) ∧ scope.bindings.get? name = some b := by
  obtain ⟨⟨name', b⟩, hbinds, hget⟩ := exists_get?_of_mem h hs
  obtain rfl : name = name' := Option.some.inj (htarget.symm.trans hbinds.target?_eq)
  exact ⟨b, hbinds, hget⟩

theorem exists_binds (h : m.execute fs = .ok scope) {name : String} {b : Binding}
    (hb : scope.bindings.get? name = some b) : ∃ s ∈ m.body, s.Binds fs (name, b) := by
  obtain ⟨entries, hbinds, hnodup, rfl⟩ := execute_eq_ok_iff.mp h
  have hentry : (name, b) ∈ entries := (NameMap.get?_ofList hnodup).mp hb
  exact exists_of_forall₂ hbinds.flip hentry

theorem nodup_targets (h : m.execute fs = .ok scope) :
    (m.body.map Statement.target?).Nodup := by
  obtain ⟨entries, hbinds, hnodup, -⟩ := execute_eq_ok_iff.mp h
  have htargets : m.body.map Statement.target? = (entries.map (·.1)).map some := by
    clear h hnodup
    generalize m.body = body at hbinds
    induction hbinds with
    | nil => rfl
    | cons hfirst _ ih => rw [List.map_cons, List.map_cons, List.map_cons, hfirst.target?_eq, ih]
  rw [htargets]
  exact hnodup.map fun _ _ => Option.some.inj

theorem eq_of_target?_eq (h : m.execute fs = .ok scope) {s s' : Statement} (hs : s ∈ m.body)
    (hs' : s' ∈ m.body) (htarget : s.target? = s'.target?) : s = s' :=
  List.inj_on_of_nodup_map (nodup_targets h) hs hs' htarget

theorem filter_target?_eq (h : m.execute fs = .ok scope) {s : Statement} (hs : s ∈ m.body)
    {name : String} (htarget : s.target? = some name) :
    (m.body.filter fun t => decide (t.target? = some name)) = [s] := by
  refine List.perm_singleton.mp ?_
  refine (List.perm_ext_iff_of_nodup ((List.Nodup.of_map _ (nodup_targets h)).filter _)
    (List.nodup_singleton s)).mpr fun t => ?_
  rw [List.mem_filter, List.mem_singleton, decide_eq_true_iff]
  constructor
  · rintro ⟨ht, heq⟩
    exact eq_of_target?_eq h ht hs (heq.trans htarget.symm)
  · rintro rfl
    exact ⟨hs, htarget⟩

/-- The statements of a module may stand in any order. -/
theorem execute_perm {m' : Module} (hperm : m.body.Perm m'.body) (h : m.execute fs = .ok scope) :
    m'.execute fs = .ok scope := by
  obtain ⟨entries, hbinds, hnodup, rfl⟩ := execute_eq_ok_iff.mp h
  obtain ⟨entries', hbinds', hentries⟩ := List.perm_comp_forall₂ hperm.symm hbinds
  refine execute_eq_ok_iff.mpr ⟨entries', hbinds', ?_, ?_⟩
  · exact (hentries.map _).nodup_iff.mpr hnodup
  · rw [NameMap.ofList_perm hentries.symm hnodup]

end Module

end DepsManifest
