import DepsManifest.Proofs.Evaluation.Invariant
/-! # Values that can be constructed

A dict is constructed by insertions, which put a value in the place of an equal key if there is one.
So no two keys of a constructed dict are equal (`Value.Constructible`), and this is a property that
evaluation keeps (`closed_constructible`), whatever lists and dicts its keys hold.
-/
namespace DepsManifest

/-! ## Insertions -/

/-- What holds of all keys and values of a dict, and of a new key and a new value, holds of them
after the insertion. -/
theorem Dict.forall_mem_insertEntry {K V : Value → Prop} {key value : Value}
    {entries : List (Value × Value)} (h : ∀ e ∈ entries, K e.1 ∧ V e.2) (hkey : K key)
    (hvalue : V value) : ∀ e ∈ insertEntry key value entries, K e.1 ∧ V e.2 := by
  induction entries with
  | nil => exact List.forall_mem_singleton.mpr ⟨hkey, hvalue⟩
  | cons entry entries ih =>
      obtain ⟨hfirst, hrest⟩ := List.forall_mem_cons.mp h
      rw [insertEntry]
      split
      · exact List.forall_mem_cons.mpr ⟨⟨hfirst.1, hvalue⟩, hrest⟩
      · exact List.forall_mem_cons.mpr ⟨hfirst, ih hrest⟩

/-- An insertion makes no two keys equal. -/
theorem Dict.pairwise_insertEntry {entries : List (Value × Value)}
    (h : entries.Pairwise fun a b => (a.1 == b.1) = false) (key value : Value) :
    (insertEntry key value entries).Pairwise fun a b => (a.1 == b.1) = false := by
  induction entries with
  | nil => exact List.pairwise_singleton _ _
  | cons entry entries ih =>
      obtain ⟨hfirst, hrest⟩ := List.pairwise_cons.mp h
      rw [insertEntry]
      split
      · exact List.pairwise_cons.mpr ⟨hfirst, hrest⟩
      · rename_i hne
        refine List.pairwise_cons.mpr ⟨fun e he => ?_, ih hrest⟩
        have hkeys : ∀ e ∈ insertEntry key value entries, (entry.1 == e.1) = false ∧ True :=
          forall_mem_insertEntry (K := fun k => (entry.1 == k) = false) (V := fun _ => True)
            (fun e he => ⟨hfirst e he, trivial⟩) (Bool.eq_false_iff.mpr hne) trivial
        exact (hkeys e he).1

namespace Value

/-- The values in which no dict has two equal keys. -/
inductive Constructible : Value → Prop
  | null : Constructible .null
  | bool (b : Bool) : Constructible (.bool b)
  | int (i : Int64) : Constructible (.int i)
  | str (s : String) : Constructible (.str s)
  | list {items : List Value} : (∀ v ∈ items, Constructible v) → Constructible (.list items)
  | tuple {items : List Value} : (∀ v ∈ items, Constructible v) → Constructible (.tuple items)
  | dict {entries : List (Value × Value)} :
      entries.Pairwise (fun a b => (a.1 == b.1) = false) → (∀ e ∈ entries, Constructible e.1) →
      (∀ e ∈ entries, Constructible e.2) → Constructible (.dict entries)

/-- Evaluation of constructible values gives constructible values. -/
theorem closed_constructible : Closed Constructible where
  null := .null
  bool := .bool
  str := .str
  int := fun _ j => .int j
  list_iff := by
    intro items
    constructor
    · intro h
      cases h with
      | list hitems => exact hitems
    · exact .list
  tuple_iff := by
    intro items
    constructor
    · intro h
      cases h with
      | tuple hitems => exact hitems
    · exact .tuple
  empty := .dict .nil nofun nofun
  insert := by
    intro entries k v hentries hk _ hv
    cases hentries with
    | dict hkeys hfirst hsecond =>
        have hparts : ∀ e ∈ Dict.insertEntry k v entries, Constructible e.1 ∧ Constructible e.2 :=
          Dict.forall_mem_insertEntry (fun e he => ⟨hfirst e he, hsecond e he⟩) hk hv
        exact .dict (Dict.pairwise_insertEntry hkeys k v) (fun e he => (hparts e he).1)
          fun e he => (hparts e he).2
  entry := by
    intro entries h
    cases h with
    | dict _ _ hvalues => exact hvalues

end Value

end DepsManifest
