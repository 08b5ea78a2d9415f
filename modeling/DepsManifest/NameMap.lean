/-! # Maps from names

A finite map from names whose entries stand in the order of the names, each name once. Because the
order is part of the type, two maps with the same entries are the same map, and whatever lists a map
lists it in one order. Names are ordered by their characters.

Variables, bindings, functions, scopes and the policies of checks are all such maps. An insertion is
a walk along the entries, and that it keeps the order is proved right after it, as the type needs
it. What else is to be said about the operations stands in the theory.
-/
namespace DepsManifest

/-- A finite map from names, its entries in increasing order of the names. -/
structure NameMap (α : Type) where
  entries : List (String × α)
  ordered : entries.Pairwise (fun a b => a.1 < b.1)

namespace NameMap

variable {α β : Type}

def empty : NameMap α := ⟨[], .nil⟩

instance : EmptyCollection (NameMap α) := ⟨empty⟩
instance : Inhabited (NameMap α) := ⟨empty⟩

/-- The value under a name. -/
def get? (m : NameMap α) (name : String) : Option α := m.entries.lookup name

def contains (m : NameMap α) (name : String) : Bool := (m.get? name).isSome

def names (m : NameMap α) : List String := m.entries.map (·.1)

def size (m : NameMap α) : Nat := m.entries.length

/-- Entries with a value put under a name: in its place in the order, or in place of the value
that was there. -/
def insertEntry (name : String) (value : α) : List (String × α) → List (String × α)
  | [] => [(name, value)]
  | (n, v) :: rest =>
    if name < n then (name, value) :: (n, v) :: rest
    else if name = n then (name, value) :: rest
    else (n, v) :: insertEntry name value rest

theorem mem_insertEntry {name : String} {value : α} {entries : List (String × α)}
    {e : String × α} (h : e ∈ insertEntry name value entries) :
    e = (name, value) ∨ e ∈ entries := by
  induction entries with
  | nil => simpa [insertEntry] using h
  | cons entry rest ih =>
    obtain ⟨n, v⟩ := entry
    unfold insertEntry at h
    split at h
    · simpa using h
    · split at h
      · rcases List.mem_cons.1 h with h | h
        · exact .inl h
        · exact .inr (List.mem_cons_of_mem _ h)
      · rcases List.mem_cons.1 h with h | h
        · exact .inr (h ▸ List.mem_cons_self)
        · exact (ih h).imp_right (List.mem_cons_of_mem _)

theorem ordered_insertEntry (name : String) (value : α) {entries : List (String × α)}
    (h : entries.Pairwise (fun a b => a.1 < b.1)) :
    (insertEntry name value entries).Pairwise (fun a b => a.1 < b.1) := by
  induction entries with
  | nil => simp [insertEntry]
  | cons entry rest ih =>
    obtain ⟨n, v⟩ := entry
    have hrest := List.pairwise_cons.1 h
    unfold insertEntry
    split
    · rename_i hlt
      refine List.pairwise_cons.2 ⟨fun e he => ?_, h⟩
      rcases List.mem_cons.1 he with rfl | he
      · exact hlt
      · exact String.lt_trans hlt (hrest.1 e he)
    · split
      · rename_i heq
        subst heq
        exact List.pairwise_cons.2 ⟨hrest.1, hrest.2⟩
      · rename_i hlt hne
        refine List.pairwise_cons.2 ⟨fun e he => ?_, ih hrest.2⟩
        rcases mem_insertEntry he with rfl | he
        · exact Decidable.byContradiction fun hnot =>
            hne (String.le_antisymm (String.not_lt.1 hnot) (String.not_lt.1 hlt))
        · exact hrest.1 e he

/-- A value put under a name, in place of the one that was there. -/
def insert (m : NameMap α) (name : String) (value : α) : NameMap α :=
  ⟨insertEntry name value m.entries, ordered_insertEntry name value m.ordered⟩

/-- The map of a list of pairs; of two pairs with one name the later counts. -/
def ofList (pairs : List (String × α)) : NameMap α :=
  pairs.foldl (fun m pair => m.insert pair.1 pair.2) empty

/-- A second map's entries put into a first. -/
def union (m other : NameMap α) : NameMap α :=
  other.entries.foldl (fun m pair => m.insert pair.1 pair.2) m

/-- Every value replaced, the names kept. -/
def map (f : α → β) (m : NameMap α) : NameMap β :=
  ⟨m.entries.map fun e => (e.1, f e.2), by
    simpa [List.pairwise_map] using m.ordered⟩

/-- Two maps have the same names, and values that a test finds equal. -/
def agree (same : α → α → Bool) (m other : NameMap α) : Bool :=
  m.names == other.names && (m.entries.zip other.entries).all fun (a, b) => same a.2 b.2

end NameMap

end DepsManifest
