import DepsManifest.Json.Basic
import DepsManifest.Proofs.NameMap
import Mathlib.Data.List.Induction
/-! # Members in order

An object has its members in the order of their names, each name once, as a map from names has its
entries (`sortedMembers_eq`). So nothing new has to be proved about the order: the laws of maps from
names say what becomes of the members.

  * Members with distinct names are all there, each under its name (`lookup_sortedMembers`).
  * Of members with one name the last is there (`lookup_sortedMembers_eq_last`).
  * Members that are in order stay as they are (`sortedMembers_eq_self`), so to put them in order
    twice is to do it once.

Writers of reports build objects of names that are distinct on sight, and use the first; the reader
of a text meets any names, and uses the second.
-/
namespace DepsManifest.Json

theorem insertMember_eq (name : String) (value : Json) (members : List (String × Json)) :
    insertMember name value members = NameMap.insertEntry name value members := by
  induction members with
  | nil => rfl
  | cons m members ih =>
      obtain ⟨n, v⟩ := m
      rw [insertMember, NameMap.insertEntry, ih]

theorem sortedMembers_eq (members : List (String × Json)) :
    sortedMembers members = (NameMap.ofList members).entries := by
  have hfold : ∀ m : NameMap Json,
      members.foldl (fun sorted member => insertMember member.1 member.2 sorted) m.entries =
        (members.foldl (fun m pair => m.insert pair.1 pair.2) m).entries := by
    induction members with
    | nil => exact fun _ => rfl
    | cons member members ih =>
        intro m
        rw [List.foldl_cons, List.foldl_cons, insertMember_eq]
        exact ih (m.insert member.1 member.2)
  exact hfold .empty

theorem nodup_sortedMembers (members : List (String × Json)) :
    ((sortedMembers members).map (·.1)).Nodup := by
  rw [sortedMembers_eq]
  exact NameMap.nodup_names _

theorem mem_sortedMembers {members : List (String × Json)} (h : (members.map (·.1)).Nodup)
    {m : String × Json} : m ∈ sortedMembers members ↔ m ∈ members := by
  rw [sortedMembers_eq, NameMap.mem_entries_iff, NameMap.get?_ofList h]

theorem lookup_sortedMembers {members : List (String × Json)} (h : (members.map (·.1)).Nodup)
    (name : String) : (sortedMembers members).lookup name = members.lookup name := by
  refine Option.ext fun value => ?_
  rw [← NameMap.mem_iff_lookup (nodup_sortedMembers members), mem_sortedMembers h,
    NameMap.mem_iff_lookup h]

theorem member?_object {members : List (String × Json)} (h : (members.map (·.1)).Nodup)
    (name : String) : (object members).member? name = members.lookup name :=
  lookup_sortedMembers h name

theorem sortedMembers_eq_self {members : List (String × Json)}
    (h : members.Pairwise fun a b => a.1 < b.1) : sortedMembers members = members := by
  let m : NameMap Json := ⟨members, h⟩
  have hsame : NameMap.ofList m.entries = m := by
    refine NameMap.ext_get? fun name => Option.ext fun value => ?_
    rw [NameMap.get?_ofList m.nodup_names, NameMap.mem_entries_iff]
  rw [sortedMembers_eq]
  exact congrArg NameMap.entries hsame

theorem sortedMembers_idem (members : List (String × Json)) :
    sortedMembers (sortedMembers members) = sortedMembers members := by
  refine sortedMembers_eq_self ?_
  rw [sortedMembers_eq]
  exact (NameMap.ofList members).ordered

/-- Of the members with one name the last is found when they are put in order. -/
theorem lookup_sortedMembers_eq_last (members : List (String × Json)) (name : String) :
    (sortedMembers members).lookup name = (members.findRev? fun m => m.1 == name).map (·.2) := by
  induction members using List.reverseRecOn with
  | nil => rfl
  | append_singleton members m ih =>
      have hlast : sortedMembers (members ++ [m]) = insertMember m.1 m.2 (sortedMembers members) :=
        List.foldl_append
      rw [hlast, insertMember_eq, NameMap.lookup_insertEntry, ih, List.findRev?_eq_find?_reverse,
        List.findRev?_eq_find?_reverse, List.reverse_append, List.reverse_singleton,
        List.singleton_append, List.find?_cons]
      by_cases h : name = m.1
      · rw [if_pos h, beq_iff_eq.mpr h.symm]
        rfl
      · rw [if_neg h, beq_false_of_ne (Ne.symm h)]

end DepsManifest.Json
