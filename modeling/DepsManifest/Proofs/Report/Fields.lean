import DepsManifest.Proofs.Json.Members
import DepsManifest.Proofs.Json.RoundTrip
import DepsManifest.Report.Reader
/-! # Records between writing and reading

A report is made of records, and all of them are written and read in one way. A record is written
with the fields that are present, under distinct names (`Json.written`), and each field is found
again under its name, absent or present as it was (`Json.recordMembers?_written`).

Between writing and reading lies the text of a file, and what is read is the value with the members
of its objects in order (`Json.canonical`). Fields are found by name, so for a record itself that
makes no difference. For a value that a record holds it does: what a file leaves as it is, is
`Json.Kept`. Texts, numbers of 32 bits and whatever is made of kept values with the members in order
are kept; an object with its members in another order is not, and neither is a number that is read
back as another one.

A field that is absent and one that is null are read alike, so a field that may be absent must not
hold anything that is written as null (`optional_map`).
-/
namespace DepsManifest.Json

/-! ## Values that a file keeps -/

/-- A value that is read from a file as it was written: the members of every object are in order,
each name once, the numbers can be read back, and there are containers inside one another only up to
a number. -/
structure Kept (d : Nat) (j : Json) : Prop where
  canonical : j.canonical = j
  readable : Readable d j

section Kept

variable {d : Nat}

theorem Kept.null : Kept d .null := ⟨rfl, .null⟩

theorem Kept.str (s : String) : Kept d (.str s) := ⟨rfl, .str s⟩

theorem Kept.arr {items : List Json} (h : ∀ j ∈ items, Kept d j) : Kept (d + 1) (.arr items) := by
  refine ⟨?_, .arr fun j hj => (h j hj).readable⟩
  have hitems : items.map Json.canonical = items :=
    (List.map_congr_left fun j hj => (h j hj).canonical).trans (List.map_id items)
  rw [Json.canonical, canonicalItems_eq_map, hitems]

theorem mem_of_mem_sortedMembers {members : List (String × Json)} {m : String × Json}
    (h : m ∈ sortedMembers members) : m ∈ members := by
  rw [sortedMembers_eq, NameMap.mem_entries_iff] at h
  exact (NameMap.mem_of_get?_foldl h).resolve_right nofun

theorem Kept.object {members : List (String × Json)} (h : ∀ m ∈ members, Kept d m.2) :
    Kept (d + 1) (object members) := by
  have hall : ∀ m ∈ sortedMembers members, Kept d m.2 :=
    fun m hm => h m (mem_of_mem_sortedMembers hm)
  refine ⟨?_, .obj fun m hm => (hall m hm).readable⟩
  have hmembers : canonicalMembers (sortedMembers members) = sortedMembers members := by
    rw [canonicalMembers_eq_map]
    refine (List.map_congr_left fun m hm => ?_).trans (List.map_id _)
    exact Prod.ext rfl (hall m hm).canonical
  rw [Json.object, Json.canonical, hmembers, Json.object, sortedMembers_idem]

end Kept

theorem Readable.ofUInt32 {d : Nat} (n : UInt32) : Readable d (ofUInt32 n) := by
  have hlt : n.toNat < 4294967296 := n.toNat_lt
  exact .num (Number.readBack_integer (by omega) (by omega))

/-! ## Fields -/

/-- The members of a record with given fields: those that are present. -/
def written (fields : List (String × Option Json)) : List (String × Json) :=
  fields.flatMap fun f => optionalMember f.1 f.2

theorem written_cons (name : String) (value : Option Json) (fields : List (String × Option Json)) :
    written ((name, value) :: fields) = optionalMember name value ++ written fields :=
  List.flatMap_cons

variable {fields : List (String × Option Json)}

theorem mem_written {m : String × Json} : m ∈ written fields ↔ (m.1, some m.2) ∈ fields := by
  induction fields with
  | nil => exact ⟨nofun, nofun⟩
  | cons f fields ih =>
      obtain ⟨name, value⟩ := f
      rw [written_cons, List.mem_append, ih, List.mem_cons]
      refine or_congr_left ?_
      cases value <;> simp [optionalMember, Prod.ext_iff]

theorem sublist_written (fields : List (String × Option Json)) :
    ((written fields).map (·.1)).Sublist (fields.map (·.1)) := by
  induction fields with
  | nil => exact .slnil
  | cons f fields ih =>
      obtain ⟨name, value⟩ := f
      rw [written_cons, List.map_append, List.map_cons]
      cases value with
      | none => exact ih.cons name
      | some value => exact ih.cons_cons name

theorem readable_written {d : Nat} (h : ∀ f ∈ fields, ∀ j ∈ f.2, Readable d j) :
    Readable (d + 1) (.obj (written fields)) :=
  .obj fun _ hm => h _ (mem_written.mp hm) _ rfl

theorem member?_written (hnodup : (fields.map (·.1)).Nodup) {f : String × Option Json}
    (hf : f ∈ fields) :
    (Json.obj (written fields)).canonical.member? f.1 = f.2.map Json.canonical := by
  obtain ⟨name, value⟩ := f
  have hwritten : ((written fields).map (·.1)).Nodup := hnodup.sublist (sublist_written fields)
  have hlookup : (written fields).lookup name = value := by
    refine Option.ext fun j => ?_
    rw [← NameMap.mem_iff_lookup hwritten, mem_written, NameMap.mem_iff_lookup hnodup,
      (NameMap.mem_iff_lookup hnodup).mp hf, Option.some.injEq]
  have hnames : (written fields).map ((·.1) ∘ fun m => (m.1, m.2.canonical)) =
      (written fields).map (·.1) := rfl
  rw [Json.canonical, canonicalMembers_eq_map, member?_object (by rwa [List.map_map, hnames]),
    NameMap.lookup_map, hlookup]

/-- The fields of a record that are asked for are found, absent or present as they were. -/
theorem recordMembers?_written {asked : List (String × Option Json)}
    (hnodup : (fields.map (·.1)).Nodup) (hasked : asked ⊆ fields) :
    (Json.obj (written fields)).canonical.recordMembers? (asked.map (·.1)) =
      some (asked.map fun f => f.2.map Json.canonical) := by
  refine congrArg some ?_
  rw [List.map_map]
  exact List.map_congr_left fun f hf => member?_written hnodup (hasked hf)

theorem recordMembers?_of_eq {j : Json} (hj : j = .obj (written fields))
    (hnodup : (fields.map (·.1)).Nodup) : j.canonical.recordMembers? (fields.map (·.1)) =
      some (fields.map fun f => f.2.map Json.canonical) := by
  rw [hj]
  exact recordMembers?_written hnodup (List.Subset.refl fields)

theorem optional_map {α : Type} {write : α → Json} {read : Json → Option α}
    (hread : ∀ a, read (write a).canonical = some a) (hnull : read .null = none) (o : Option α) :
    optional read ((o.map write).map Json.canonical) = some o := by
  cases o with
  | none => rfl
  | some a =>
      have hne : (write a).canonical ≠ .null := by
        intro heq
        have hread := hread a
        rw [heq, hnull] at hread
        cases hread
      rw [Option.map_some, Option.map_some, optional, hread]
      · rfl
      · exact hne

theorem optional_str (o : Option String) :
    optional asString? ((o.map Json.str).map Json.canonical) = some o :=
  optional_map (fun _ => rfl) rfl o

theorem asUInt32?_ofUInt32 (n : UInt32) : asUInt32? (ofUInt32 n).canonical = some n := by
  have hfits : 0 ≤ (n.toNat : Int) ∧ (n.toNat : Int).toNat < UInt32.size :=
    ⟨Int.natCast_nonneg _, n.toNat_lt⟩
  have hnumber : asUInt32? (ofUInt32 n).canonical = some (.ofNat (n.toNat : Int).toNat) :=
    if_pos hfits
  rw [hnumber, Int.toNat_natCast, UInt32.ofNat_toNat]

end DepsManifest.Json
