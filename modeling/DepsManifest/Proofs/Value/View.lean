import DepsManifest.Proofs.Value.Json
/-! # The view of a value

A value is written entry by entry, and its view is built by putting one member after the other in
its place among members in order. The two agree (`Value.read?_serialized`): what a reader makes of
the text is the view. That two keys of a dict are written alike, such as `None` and `'None'`, makes
no difference, as reader and view both let the last of such members count (`Value.member?_toJson`).
-/
namespace DepsManifest

namespace Json

/-- The values whose objects have their members in the order of their names, each name once. -/
inductive Ordered : Json → Prop
  | null : Ordered .null
  | bool (b : Bool) : Ordered (.bool b)
  | num (n : Number) : Ordered (.num n)
  | str (s : String) : Ordered (.str s)
  | arr {items : List Json} : (∀ j ∈ items, Ordered j) → Ordered (.arr items)
  | obj {members : List (String × Json)} : members.Pairwise (fun a b => a.1 < b.1) →
      (∀ m ∈ members, Ordered m.2) → Ordered (.obj members)

theorem ordered_object {members : List (String × Json)} (h : ∀ m ∈ members, Ordered m.2) :
    Ordered (object members) := by
  rw [object, sortedMembers_eq]
  refine .obj (NameMap.ofList members).ordered fun m hm => ?_
  rcases NameMap.mem_of_get?_foldl (NameMap.mem_entries_iff.mp hm) with hmem | hnone
  · exact h m hmem
  · cases hnone

end Json

namespace Value

mutual

/-- In the view of a value every object has its members in order. -/
theorem ordered_toJson : ∀ v : Value, v.toJson.Ordered
  | .null => .null
  | .bool b => .bool b
  | .int _ => .num _
  | .str s => .str s
  | .list items => .arr (ordered_toJsonItems items)
  | .tuple items => .arr (ordered_toJsonItems items)
  | .dict entries => Json.ordered_object (ordered_toJsonEntries entries)

theorem ordered_toJsonItems : ∀ items : List Value, ∀ j ∈ toJsonItems items, j.Ordered
  | [] => List.forall_mem_nil _
  | v :: rest => List.forall_mem_cons.mpr ⟨ordered_toJson v, ordered_toJsonItems rest⟩

theorem ordered_toJsonEntries :
    ∀ entries : List (Value × Value), ∀ m ∈ toJsonEntries entries, m.2.Ordered
  | [] => List.forall_mem_nil _
  | (_, v) :: rest => List.forall_mem_cons.mpr ⟨ordered_toJson v, ordered_toJsonEntries rest⟩

end

/-- Of the entries of a dict that have one name the view has the last. -/
theorem member?_toJson (entries : List (Value × Value)) (name : String) :
    (toJson (.dict entries)).member? name =
      (entries.findRev? fun e => e.1.memberName == name).map (·.2.toJson) := by
  rw [toJson, toJsonEntries_eq_map]
  refine (Json.lookup_sortedMembers_eq_last _ name).trans ?_
  rw [List.findRev?_eq_find?_reverse, List.findRev?_eq_find?_reverse, ← List.map_reverse,
    List.find?_map, Option.map_map]
  rfl

/-- What a value is written as is read as its view, in both layouts, unless the value is nested too
deeply. In the view every object has its members in order, each name once, and of the entries of a
dict that are written under one name, however different their keys, the last one counts. -/
theorem read?_serialized {v : Value} (h : v.depth ≤ Json.nestingLimit) :
    Json.read? v.serialized = some v.toJson ∧ Json.read? v.document.indented = some v.toJson ∧
      v.toJson.Ordered ∧
      ∀ entries name, (toJson (.dict entries)).member? name =
        (entries.findRev? fun e => e.1.memberName == name).map (·.2.toJson) := by
  obtain ⟨hcompact, hindented⟩ := @read?_document v h "" (List.forall_mem_nil _)
  rw [String.append_empty] at hcompact hindented
  exact ⟨hcompact, hindented, ordered_toJson v, member?_toJson⟩

/-- A dict with two keys that are written alike, the one a string and the other as it is printed. -/
def alikeKeys : List (Value × Value) :=
  [(.str "None", .int 9223372036854775807), (.str "a\"", .tuple [.str "\n"]),
    (.null, .int (-9223372036854775808))]

theorem read?_serialized_alikeKeys : (dict alikeKeys).depth ≤ Json.nestingLimit ∧
    Json.read? (dict alikeKeys).serialized = some (.obj
      [("None", .num (.integer (-9223372036854775808))), ("a\"", .arr [.str "\n"])]) := by
  have hdepth : (dict alikeKeys).depth ≤ Json.nestingLimit := by decide
  exact ⟨hdepth, (read?_serialized hdepth).1.trans rfl⟩

end Value

end DepsManifest
