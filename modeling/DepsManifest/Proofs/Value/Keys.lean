import DepsManifest.Proofs.Value.Literal
import DepsManifest.Value.Dict
import Mathlib.Data.List.Nodup
import Mathlib.Data.List.Perm.Subperm
/-! # Dicts with proper keys

A dict has proper keys if they are distinct and without lists and dicts, and a value is well keyed
if every dict in it has proper keys (`WellKeyed`). Under proper keys equality of keys is identity:
a key is found exactly where it stands (`get?_eq_some_iff`), and two dicts are equal if they have
the same keys and equal values under each of them.
-/
namespace DepsManifest

namespace Value

/-! ## Equality of lists of values -/

/-- Pairs at the same place of two lists are the pair of their heads and those of their tails. -/
theorem forall_getElem?_cons {R : Value → Value → Prop} {x y : Value} {xs ys : List Value} :
    (∀ (i : Nat) e a, (x :: xs)[i]? = some e → (y :: ys)[i]? = some a → R e a) ↔
      R x y ∧ ∀ (i : Nat) e a, xs[i]? = some e → ys[i]? = some a → R e a := by
  constructor
  · intro h
    exact ⟨h 0 x y rfl rfl, fun i e a he ha => h (i + 1) e a he ha⟩
  · rintro ⟨hfirst, hrest⟩ i e a he ha
    cases i with
    | zero =>
        cases he
        cases ha
        exact hfirst
    | succ i => exact hrest i e a he ha

/-- Lists of values are equal if they are equally long and equal place by place. -/
theorem eqvAll_iff {xs ys : List Value} :
    eqvAll xs ys = true ↔ xs.length = ys.length ∧
      ∀ (i : Nat) x y, xs[i]? = some x → ys[i]? = some y → eqv x y = true := by
  induction xs generalizing ys with
  | nil =>
      cases ys with
      | nil => exact ⟨fun _ => ⟨rfl, fun _ _ _ h => (nomatch h)⟩, fun _ => rfl⟩
      | cons y ys => exact ⟨fun h => (nomatch h), fun ⟨h, _⟩ => (nomatch h)⟩
  | cons x xs ih =>
      cases ys with
      | nil => exact ⟨fun h => (nomatch h), fun ⟨h, _⟩ => (nomatch h)⟩
      | cons y ys =>
          rw [eqvAll, Bool.and_eq_true, ih, forall_getElem?_cons, List.length_cons,
            List.length_cons, Nat.succ_inj]
          constructor
          · rintro ⟨hxy, hlength, hrest⟩
            exact ⟨hlength, hxy, hrest⟩
          · rintro ⟨hlength, hxy, hrest⟩
            exact ⟨hxy, hlength, hrest⟩

theorem eqvAll_self {xs : List Value} (h : ∀ x ∈ xs, eqv x x = true) : eqvAll xs xs = true := by
  induction xs with
  | nil => rfl
  | cons x xs ih =>
      rw [eqvAll, h x List.mem_cons_self, ih fun y hy => h y (List.mem_cons_of_mem x hy)]
      rfl

/-! ## Proper keys -/

theorem Flat.eqv_self {v : Value} (h : Flat v) : eqv v v = true := by
  induction h with
  | tuple _ ih => exact eqvAll_self ih
  | null => rfl
  | bool b => exact beq_self_eq_true b
  | int i => exact beq_self_eq_true i
  | str s => exact beq_self_eq_true s

/-- Flat keys are distinct if no two of them are equal as values. -/
theorem nodup_keys_iff {entries : List (Value × Value)} (h : ∀ e ∈ entries, Flat e.1) :
    (entries.map (·.1)).Nodup ↔ entries.Pairwise fun a b => (a.1 == b.1) = false := by
  rw [List.Nodup, List.pairwise_map]
  refine List.Pairwise.iff_of_mem fun {a b} ha hb => ?_
  rw [Bool.eq_false_iff]
  refine not_congr ⟨fun heq => ?_, (h a ha).eq_of_eqv⟩
  rw [heq]
  exact (h b hb).eqv_self

/-- Entries whose keys are distinct and without lists and dicts. -/
structure ProperKeys (entries : List (Value × Value)) : Prop where
  flat : ∀ e ∈ entries, Flat e.1
  nodup : (entries.map (·.1)).Nodup

namespace ProperKeys

variable {entries : List (Value × Value)} {k v w : Value}

theorem flat_of_mem_map (h : ProperKeys entries) (hk : k ∈ entries.map (·.1)) : Flat k := by
  obtain ⟨e, he, rfl⟩ := List.mem_map.mp hk
  exact h.flat e he

/-- Under a key there is only one value. -/
theorem unique (h : ProperKeys entries) (hv : (k, v) ∈ entries) (hw : (k, w) ∈ entries) :
    v = w :=
  congrArg Prod.snd (List.inj_on_of_nodup_map h.nodup hv hw rfl)

/-- A key is found where it stands, and nowhere else. -/
theorem get?_eq_some_iff (h : ProperKeys entries) :
    (⟨entries⟩ : Dict).get? k = some v ↔ (k, v) ∈ entries := by
  constructor
  · intro hget
    obtain ⟨e, he, rfl⟩ := Option.map_eq_some_iff.mp hget
    have hfound := List.find?_some he
    have hmem := List.mem_of_find?_eq_some he
    have hkey : e.1 = k := (h.flat e hmem).eq_of_eqv hfound
    rw [← hkey]
    exact hmem
  · intro hmem
    have hsome : (entries.find? fun e => e.1 == k).isSome = true :=
      List.find?_isSome.mpr ⟨(k, v), hmem, (h.flat _ hmem).eqv_self⟩
    obtain ⟨e, he⟩ := Option.isSome_iff_exists.mp hsome
    have hfound := List.find?_some he
    have hentry := List.mem_of_find?_eq_some he
    have hkey : e.1 = k := (h.flat e hentry).eq_of_eqv hfound
    have hvalue : e.2 = v := h.unique (k := k) (hkey ▸ hentry) hmem
    rw [Dict.get?, he, Option.map_some, hvalue]

end ProperKeys

/-- The values in which every dict has proper keys. -/
inductive WellKeyed : Value → Prop
  | null : WellKeyed .null
  | bool (b : Bool) : WellKeyed (.bool b)
  | int (i : Int64) : WellKeyed (.int i)
  | str (s : String) : WellKeyed (.str s)
  | list {items : List Value} : (∀ v ∈ items, WellKeyed v) → WellKeyed (.list items)
  | tuple {items : List Value} : (∀ v ∈ items, WellKeyed v) → WellKeyed (.tuple items)
  | dict {entries : List (Value × Value)} : ProperKeys entries →
      (∀ e ∈ entries, WellKeyed e.2) → WellKeyed (.dict entries)

/-- If the first of two dicts is equal to the second, each of its entries has an equal one. -/
theorem exists_of_eqvEntries {xs ys : List (Value × Value)} (hflat : ∀ e ∈ xs, Flat e.1)
    (h : eqvEntries xs ys = true) : ∀ e ∈ xs, ∃ w, (e.1, w) ∈ ys ∧ eqv e.2 w = true := by
  induction xs with
  | nil => exact nofun
  | cons x xs ih =>
      rw [eqvEntries, Bool.and_eq_true] at h
      refine List.forall_mem_cons.mpr ⟨?_, ih
        (fun e he => hflat e (List.mem_cons_of_mem x he)) h.2⟩
      cases hfind : ys.find? fun e => eqv x.1 e.1 with
      | none =>
          rw [hfind] at h
          cases h.1
      | some e =>
          rw [hfind] at h
          have hkey := List.find?_some hfind
          have hsame : x.1 = e.1 := (hflat x List.mem_cons_self).eq_of_eqv hkey
          rw [hsame]
          exact ⟨e.2, List.mem_of_find?_eq_some hfind, h.1⟩

/-- Equal dicts have the same keys, and equal values under each of them. -/
theorem keys_and_values_of_eqv {xs ys : List (Value × Value)} (hxs : ProperKeys xs)
    (hys : ProperKeys ys) (h : eqv (.dict xs) (.dict ys) = true) :
    (∀ k, k ∈ xs.map (·.1) ↔ k ∈ ys.map (·.1)) ∧
      ∀ k v w, (k, v) ∈ xs → (k, w) ∈ ys → eqv v w = true := by
  rw [eqv, Bool.and_eq_true, beq_iff_eq] at h
  obtain ⟨hlength, hentries⟩ := h
  have hfound := exists_of_eqvEntries hxs.flat hentries
  have hsub : xs.map (·.1) ⊆ ys.map (·.1) := by
    intro k hk
    obtain ⟨e, he, rfl⟩ := List.mem_map.mp hk
    obtain ⟨w, hw, -⟩ := hfound e he
    exact List.mem_map.mpr ⟨_, hw, rfl⟩
  -- Distinct keys of the first that are keys of the second, and as many: none is left over.
  have hperm : (xs.map (·.1)).Perm (ys.map (·.1)) :=
    (List.subperm_of_subset hxs.nodup hsub).perm_of_length_le (by simp [hlength])
  refine ⟨fun k => hperm.mem_iff, fun k v w hv hw => ?_⟩
  obtain ⟨w', hw', hequal⟩ := hfound (k, v) hv
  rw [hys.unique hw hw']
  exact hequal

end Value

end DepsManifest
