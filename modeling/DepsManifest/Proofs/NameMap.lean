import DepsManifest.NameMap
import Mathlib.Data.List.Nodup
/-! # Laws of maps from names

A map is what it gives under each name (`ext_get?`): the order of its entries is part of the type,
so two maps that give the same are the same map. Every operation is then known by one law that says
what its result gives:

  * an insertion changes what is given under its name, and nothing else (`get?_insert`);
  * of many insertions under one name the last counts (`get?_foldl_insert`);
  * a map of pairs gives what the pairs hold, if no two of them have one name (`get?_ofList`), and
    then the order of the pairs does not count (`ofList_perm`);
  * a union gives what the second map gives, and otherwise what the first gives (`get?_union`);
  * a map with its values replaced gives the replaced values (`get?_map`).

The step behind all of them is `lookup_insertEntry`. The order of the entries plays no part in it:
an insertion stops at the first entry of its name, and entries of other names stay where they are.
Between what a map gives and what stands among its entries there is no difference either
(`mem_entries_iff`), so statements about all bindings can be read both ways.
-/
namespace DepsManifest.NameMap

variable {α β : Type}

theorem lookup_cons (n other : String) (v : α) (rest : List (String × α)) :
    ((n, v) :: rest).lookup other = if other = n then some v else rest.lookup other := by
  by_cases h : other = n
  · simp [h]
  · simp [List.lookup_cons, h, beq_false_of_ne h]

theorem lookup_insertEntry (name other : String) (value : α) (entries : List (String × α)) :
    (insertEntry name value entries).lookup other
      = if other = name then some value else entries.lookup other := by
  induction entries with
  | nil => exact lookup_cons name other value []
  | cons entry rest ih =>
      obtain ⟨n, v⟩ := entry
      unfold insertEntry
      split
      · exact lookup_cons name other value _
      · split
        · rename_i heq
          subst heq
          rw [lookup_cons, lookup_cons]
          by_cases h : other = name <;> simp [h]
        · rename_i hne
          rw [lookup_cons, lookup_cons, ih]
          by_cases h : other = name
          · subst h
            simp [hne]
          · simp [h]

theorem lookup_map (f : α → β) (name : String) (entries : List (String × α)) :
    (entries.map fun e => (e.1, f e.2)).lookup name = (entries.lookup name).map f := by
  induction entries with
  | nil => rfl
  | cons e entries ih =>
      obtain ⟨n, v⟩ := e
      rw [List.map_cons, lookup_cons, lookup_cons, ih]
      split <;> rfl

theorem get?_insert (m : NameMap α) (name other : String) (value : α) :
    (m.insert name value).get? other = if other = name then some value else m.get? other :=
  lookup_insertEntry name other value m.entries

@[simp] theorem get?_empty (name : String) : (empty : NameMap α).get? name = none := rfl

/-! ## Entries -/

theorem nodup_names (m : NameMap α) : (m.entries.map (·.1)).Nodup := by
  have hordered : (m.entries.map (·.1)).Pairwise (· < ·) := List.pairwise_map.mpr m.ordered
  refine hordered.imp fun {a b} hab heq => ?_
  subst heq
  exact String.lt_irrefl _ hab

theorem mem_iff_lookup {entries : List (String × α)} (hnodup : (entries.map (·.1)).Nodup)
    {name : String} {v : α} : (name, v) ∈ entries ↔ entries.lookup name = some v := by
  induction entries with
  | nil => exact ⟨nofun, nofun⟩
  | cons e entries ih =>
      obtain ⟨n, x⟩ := e
      obtain ⟨hnew, hrest⟩ := List.nodup_cons.mp hnodup
      rw [List.mem_cons, Prod.mk.injEq, lookup_cons]
      by_cases h : name = n
      · subst h
        rw [if_pos rfl, Option.some.injEq]
        constructor
        · rintro (⟨-, rfl⟩ | hmem)
          · rfl
          · exact absurd (List.mem_map_of_mem (f := Prod.fst) hmem) hnew
        · rintro rfl
          exact .inl ⟨rfl, rfl⟩
      · rw [if_neg h]
        refine Iff.trans ?_ (ih hrest)
        exact ⟨fun hmem => hmem.resolve_left fun heq => h heq.1, .inr⟩

theorem mem_entries_iff {m : NameMap α} {name : String} {v : α} :
    (name, v) ∈ m.entries ↔ m.get? name = some v :=
  mem_iff_lookup m.nodup_names

/-- Two maps that give the same under every name are the same map. -/
theorem ext_get? {m other : NameMap α} (h : ∀ name, m.get? name = other.get? name) : m = other := by
  have hmem : ∀ e, e ∈ m.entries ↔ e ∈ other.entries := by
    intro e
    obtain ⟨name, v⟩ := e
    rw [mem_entries_iff, mem_entries_iff, h]
  have hperm : m.entries.Perm other.entries :=
    (List.perm_ext_iff_of_nodup (List.Nodup.of_map _ m.nodup_names)
      (List.Nodup.of_map _ other.nodup_names)).mpr hmem
  have hentries : m.entries = other.entries := by
    refine List.Perm.eq_of_pairwise ?_ m.ordered other.ordered hperm
    intro a b _ _ hab hba
    exact absurd (String.lt_trans hab hba) (String.lt_irrefl _)
  cases m
  cases other
  cases hentries
  rfl

/-! ## Many insertions -/

theorem mem_of_get?_foldl {pairs : List (String × α)} {m : NameMap α} {name : String} {v : α}
    (h : (pairs.foldl (fun m pair => m.insert pair.1 pair.2) m).get? name = some v) :
    (name, v) ∈ pairs ∨ m.get? name = some v := by
  induction pairs generalizing m with
  | nil => exact .inr h
  | cons pair pairs ih =>
      rcases ih h with hmem | hget
      · exact .inl (List.mem_cons_of_mem _ hmem)
      · rw [get?_insert] at hget
        split at hget
        · rename_i heq
          cases hget
          subst heq
          exact .inl List.mem_cons_self
        · exact .inr hget

theorem get?_foldl_eq_some_iff {pairs : List (String × α)} (hnodup : (pairs.map (·.1)).Nodup)
    {m : NameMap α} {name : String} {v : α} :
    (pairs.foldl (fun m pair => m.insert pair.1 pair.2) m).get? name = some v ↔
      (name, v) ∈ pairs ∨ name ∉ pairs.map (·.1) ∧ m.get? name = some v := by
  induction pairs generalizing m with
  | nil => simp
  | cons pair pairs ih =>
      obtain ⟨n, x⟩ := pair
      obtain ⟨hnew, hrest⟩ := List.nodup_cons.mp hnodup
      rw [List.foldl_cons, ih hrest, get?_insert]
      by_cases h : name = n
      · subst h
        have hnot : (name, v) ∉ pairs := by
          intro hmem
          exact hnew (List.mem_map.mpr ⟨_, hmem, rfl⟩)
        simp [hnot, hnew, eq_comm]
      · simp [h]

/-- Of several insertions under one name the last counts. -/
theorem get?_foldl_insert (pairs : List (String × α)) (m : NameMap α) (name : String) :
    (pairs.foldl (fun m pair => m.insert pair.1 pair.2) m).get? name =
      (pairs.reverse.lookup name).or (m.get? name) := by
  induction pairs generalizing m with
  | nil => rfl
  | cons pair pairs ih =>
      obtain ⟨n, v⟩ := pair
      rw [List.foldl_cons, ih, get?_insert, List.reverse_cons, List.lookup_append, Option.or_assoc,
        lookup_cons]
      split
      · rfl
      · rfl

theorem lookup_of_not_mem {pairs : List (String × α)} {name : String} (h : name ∉ pairs.map (·.1)) :
    pairs.lookup name = none := by
  rw [List.lookup_eq_none_iff]
  intro pair hpair
  rw [bne_iff_ne]
  rintro rfl
  exact h (List.mem_map_of_mem hpair)

theorem lookup_reverse_of_not_mem {pairs : List (String × α)} {name : String}
    (h : name ∉ pairs.map (·.1)) : pairs.reverse.lookup name = none :=
  lookup_of_not_mem (by rwa [List.map_reverse, List.mem_reverse])

theorem get?_ofList_of_not_mem {pairs : List (String × α)} {name : String}
    (h : name ∉ pairs.map (·.1)) : (ofList pairs).get? name = none := by
  rw [ofList, get?_foldl_insert, lookup_reverse_of_not_mem h]
  rfl

theorem exists_get?_ofList {pairs : List (String × α)} {name : String}
    (h : name ∈ pairs.map (·.1)) : ∃ v, (ofList pairs).get? name = some v := by
  rw [ofList, get?_foldl_insert, get?_empty, Option.or_none]
  refine Option.ne_none_iff_exists'.mp fun hnone => ?_
  rw [List.lookup_eq_none_iff] at hnone
  obtain ⟨pair, hpair, rfl⟩ := List.mem_map.mp h
  exact bne_iff_ne.mp (hnone pair (List.mem_reverse.mpr hpair)) rfl

theorem get?_ofList_append {before after : List (String × α)} {name : String}
    (h : name ∉ after.map (·.1)) (v : α) :
    (ofList (before ++ (name, v) :: after)).get? name = some v := by
  rw [ofList, get?_foldl_insert, List.reverse_append, List.reverse_cons, List.append_assoc,
    List.lookup_append, lookup_reverse_of_not_mem h, List.singleton_append, lookup_cons, if_pos rfl]
  rfl

theorem get?_ofList {pairs : List (String × α)} (hnodup : (pairs.map (·.1)).Nodup) {name : String}
    {v : α} : (ofList pairs).get? name = some v ↔ (name, v) ∈ pairs := by
  rw [ofList, get?_foldl_eq_some_iff hnodup, get?_empty]
  simp

theorem entries_ofList_perm {pairs : List (String × α)}
    (hnodup : (pairs.map (·.1)).Nodup) : (ofList pairs).entries.Perm pairs := by
  refine (List.perm_ext_iff_of_nodup (List.Nodup.of_map _ (ofList pairs).nodup_names)
    (List.Nodup.of_map _ hnodup)).mpr fun e => ?_
  rw [mem_entries_iff, get?_ofList hnodup]

theorem ofList_perm {pairs other : List (String × α)} (hperm : pairs.Perm other)
    (hnodup : (pairs.map (·.1)).Nodup) : ofList pairs = ofList other := by
  have hother : (other.map (·.1)).Nodup := (hperm.map _).nodup hnodup
  refine ext_get? fun name => Option.ext fun v => ?_
  rw [get?_ofList hnodup, get?_ofList hother, hperm.mem_iff]

theorem get?_union (m other : NameMap α) (name : String) :
    (m.union other).get? name = (other.get? name).or (m.get? name) := by
  refine Option.ext fun v => ?_
  rw [union, get?_foldl_eq_some_iff other.nodup_names, mem_entries_iff, Option.or_eq_some_iff]
  refine or_congr_right (and_congr_left fun _ => ?_)
  rw [Option.eq_none_iff_forall_ne_some, List.mem_map, not_exists]
  constructor
  · intro hnone w hw
    exact hnone (name, w) ⟨mem_entries_iff.mpr hw, rfl⟩
  · rintro hnone ⟨n, w⟩ ⟨hmem, rfl⟩
    exact hnone w (mem_entries_iff.mp hmem)

theorem get?_map (f : α → β) (m : NameMap α) (name : String) :
    (m.map f).get? name = (m.get? name).map f :=
  lookup_map f name m.entries

/-- A map is what another becomes if that holds of each of its values. -/
theorem exists_map_eq {f : α → β} {m : NameMap β}
    (h : ∀ name v, m.get? name = some v → ∃ x, f x = v) : ∃ m' : NameMap α, m'.map f = m := by
  have hlist : ∀ entries : List (String × β), (∀ e ∈ entries, ∃ x, f x = e.2) →
      ∃ l : List (String × α), l.map (fun e => (e.1, f e.2)) = entries := by
    intro entries hentries
    induction entries with
    | nil => exact ⟨[], rfl⟩
    | cons e entries ih =>
        obtain ⟨⟨x, hx⟩, hrest⟩ := List.forall_mem_cons.mp hentries
        obtain ⟨l, rfl⟩ := ih hrest
        exact ⟨(e.1, x) :: l, by rw [List.map_cons, hx]⟩
  obtain ⟨entries, hordered⟩ := m
  obtain ⟨l, rfl⟩ := hlist entries fun e he => h e.1 e.2 (mem_entries_iff.mp he)
  have hnames : l.Pairwise (fun a b => a.1 < b.1) := by rwa [List.pairwise_map] at hordered
  exact ⟨⟨l, hnames⟩, rfl⟩

end DepsManifest.NameMap
