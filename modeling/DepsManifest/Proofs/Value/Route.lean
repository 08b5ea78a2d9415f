import DepsManifest.Proofs.Value.Equality
/-! # Routes into a value

A value is walked through part by part: a dict by its entries, in their order, a list or a tuple by
its elements. A route is the list of the steps, keys and indices, that lead from a value to
something inside it (`Value.Leads`), and one route stands before another if they part at some value,
the first at the earlier part (`Value.Before`).

A step is taken from a value in one way only if no dict holds a key twice (`DistinctKeys.unique`).
That is so in well-keyed values, and in all values that can be constructed
(`Constructible.distinctKeys`).
-/
namespace DepsManifest

namespace Value

/-- A step from a value to one of its parts. -/
inductive Step where
  | key (k : Value)
  | index (i : Nat)

/-- The elements of a sequence, each with the step that leads to it. -/
def indexed (items : List Value) : List (Step × Value) :=
  items.zipIdx.map fun e => (.index e.2, e.1)

/-- The parts of a value, each with the step that leads to it. -/
def parts : Value → List (Step × Value)
  | .dict entries => entries.map fun e => (.key e.1, e.2)
  | .list items => indexed items
  | .tuple items => indexed items
  | _ => []

/-- The steps lead from a value to another. -/
inductive Leads : Value → List Step → Value → Prop
  | here (v : Value) : Leads v [] v
  | step {v x w : Value} {s : Step} {route : List Step} : (s, x) ∈ v.parts → Leads x route w →
      Leads v (s :: route) w

/-- Where a value is walked through, the first route is taken before the second. -/
inductive Before : Value → List Step → List Step → Prop
  | branch {v x y : Value} {s t : Step} {route other : List Step} {m n : Nat} :
      v.parts[m]? = some (s, x) → v.parts[n]? = some (t, y) → m < n →
      Before v (s :: route) (t :: other)
  | inside {v x : Value} {s : Step} {route other : List Step} : (s, x) ∈ v.parts →
      Before x route other → Before v (s :: route) (s :: other)

/-- The values in which no dict holds a key twice. -/
inductive DistinctKeys : Value → Prop
  | null : DistinctKeys .null
  | bool (b : Bool) : DistinctKeys (.bool b)
  | int (i : Int64) : DistinctKeys (.int i)
  | str (s : String) : DistinctKeys (.str s)
  | list {items : List Value} : (∀ v ∈ items, DistinctKeys v) → DistinctKeys (.list items)
  | tuple {items : List Value} : (∀ v ∈ items, DistinctKeys v) → DistinctKeys (.tuple items)
  | dict {entries : List (Value × Value)} : (entries.map (·.1)).Nodup →
      (∀ e ∈ entries, DistinctKeys e.2) → DistinctKeys (.dict entries)

/-! ## Parts -/

/-- No two elements of a list have one index. -/
theorem nodup_indices {α : Type} (l : List α) : (l.zipIdx.map (·.2)).Nodup := by
  rw [List.zipIdx_map_snd]
  exact List.nodup_range'

variable {entries : List (Value × Value)} {items : List Value} {k v x : Value} {i : Nat} {s : Step}

theorem getElem?_indexed {n : Nat} :
    (indexed items)[n]? = items[n]?.map fun x => (.index n, x) := by
  rw [indexed, List.getElem?_map, List.getElem?_zipIdx, Option.map_map, Nat.zero_add]
  rfl

theorem mem_indexed_iff : (s, x) ∈ indexed items ↔ ∃ i, s = .index i ∧ items[i]? = some x := by
  rw [List.mem_iff_getElem?]
  refine exists_congr fun n => ?_
  rw [getElem?_indexed, Option.map_eq_some_iff]
  constructor
  · rintro ⟨y, hy, heq⟩
    cases heq
    exact ⟨rfl, hy⟩
  · rintro ⟨rfl, hx⟩
    exact ⟨x, hx, rfl⟩

theorem parts_of_asSequence? (h : v.asSequence? = some items) : v.parts = indexed items := by
  cases v with
  | list _ =>
      cases h
      rfl
  | tuple _ =>
      cases h
      rfl
  | _ => cases h

theorem mem_parts_dict_iff :
    (s, x) ∈ (dict entries).parts ↔ ∃ k, s = .key k ∧ (k, x) ∈ entries := by
  rw [parts, List.mem_map]
  constructor
  · rintro ⟨⟨k, y⟩, he, heq⟩
    cases heq
    exact ⟨k, rfl, he⟩
  · rintro ⟨k, rfl, he⟩
    exact ⟨(k, x), he, rfl⟩

theorem nodup_indexed (items : List Value) : ((indexed items).map (·.1)).Nodup := by
  have hindices : (indexed items).map (·.1) = (items.zipIdx.map (·.2)).map Step.index := by
    rw [indexed, List.map_map, List.map_map]
    rfl
  rw [hindices]
  exact List.Nodup.map (fun _ _ h => Step.index.inj h) (nodup_indices items)

theorem Leads.append {w : Value} {route inner : List Step} (h : v.Leads route w)
    (h' : w.Leads inner x) : v.Leads (route ++ inner) x := by
  induction h with
  | here v => exact h'
  | step hpart _ ih => exact .step hpart (ih h')

namespace DistinctKeys

variable (h : DistinctKeys v)

include h

/-- No two parts of a value are reached by one step. -/
theorem nodup_steps : (v.parts.map (·.1)).Nodup := by
  cases h with
  | list _ => exact nodup_indexed _
  | tuple _ => exact nodup_indexed _
  | @dict entries hkeys _ =>
      have hsteps : (Value.dict entries).parts.map (·.1) = (entries.map (·.1)).map Step.key := by
        rw [parts, List.map_map, List.map_map]
        rfl
      rw [hsteps]
      exact List.Nodup.map (fun _ _ h => Step.key.inj h) hkeys
  | _ => exact .nil

theorem unique {y : Value} (hx : (s, x) ∈ v.parts) (hy : (s, y) ∈ v.parts) : x = y :=
  congrArg Prod.snd (List.inj_on_of_nodup_map h.nodup_steps hx hy rfl)

theorem part (hx : (s, x) ∈ v.parts) : DistinctKeys x := by
  cases h with
  | list hitems =>
      obtain ⟨i, -, hi⟩ := mem_indexed_iff.mp hx
      exact hitems x (List.mem_of_getElem? hi)
  | tuple hitems =>
      obtain ⟨i, -, hi⟩ := mem_indexed_iff.mp hx
      exact hitems x (List.mem_of_getElem? hi)
  | dict _ hvalues =>
      obtain ⟨k, -, he⟩ := mem_parts_dict_iff.mp hx
      exact hvalues _ he
  | _ => cases hx

theorem of_asSequence? (hv : v.asSequence? = some items) : ∀ x ∈ items, DistinctKeys x := by
  intro x hx
  obtain ⟨i, hi⟩ := List.mem_iff_getElem?.mp hx
  refine h.part (s := .index i) ?_
  rw [parts_of_asSequence? hv]
  exact mem_indexed_iff.mpr ⟨i, rfl, hi⟩

end DistinctKeys

/-! ## Values with distinct keys -/

theorem Constructible.distinctKeys (h : Constructible v) : DistinctKeys v := by
  induction h with
  | null => exact .null
  | bool b => exact .bool b
  | int i => exact .int i
  | str s => exact .str s
  | list _ ih => exact .list ih
  | tuple _ ih => exact .tuple ih
  | dict hdistinct hkeys _ _ ih =>
      refine .dict (List.pairwise_map.mpr (hdistinct.imp_of_mem fun {a b} ha _ hne heq => ?_)) ih
      -- A key is equal to itself.
      rw [← heq] at hne
      exact Bool.eq_false_iff.mp hne (equivalenceOn_constructible.refl (hkeys a ha))

theorem WellKeyed.distinctKeys (h : WellKeyed v) : DistinctKeys v := h.constructible.distinctKeys

end Value

end DepsManifest
