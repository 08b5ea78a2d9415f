import DepsManifest.Proofs.Comparison
import DepsManifest.Proofs.Json.Members
import DepsManifest.Proofs.Json.RoundTrip
import DepsManifest.Proofs.NameMap
import DepsManifest.Proofs.Value.Dict
import DepsManifest.Value.Json
import Mathlib.Data.List.Forall2
/-! # Values that are written and read back

The text that a value is written as is read as the JSON view of the value (`read?_document`), unless
it is nested too deeply. A value whose dict keys are distinct strings is plain (`Value.Plain`). What
is read back from the view of a plain value is related to it part by part (`Plain.exists_ofJson`),
and so the plain value matches it (`followsParts_readFor`): tuples have become lists and entries
have changed places, and both are what an expected value may differ in.
-/
namespace DepsManifest

namespace Value

/-! ## Writing -/

mutual

/-- The number of containers inside one another. What is inside a key does not count. -/
def depth : Value → Nat
  | .list items => depthAll items + 1
  | .tuple items => depthAll items + 1
  | .dict entries => depthEntries entries + 1
  | _ => 0

/-- The greatest depth of some values. -/
def depthAll : List Value → Nat
  | [] => 0
  | v :: rest => max (depth v) (depthAll rest)

/-- The greatest depth of the values of a dict. -/
def depthEntries : List (Value × Value) → Nat
  | [] => 0
  | (_, v) :: rest => max (depth v) (depthEntries rest)

end

theorem depthAll_le_iff {items : List Value} {d : Nat} :
    depthAll items ≤ d ↔ ∀ v ∈ items, v.depth ≤ d := by
  induction items with
  | nil => exact ⟨fun _ => nofun, fun _ => Nat.zero_le d⟩
  | cons v items ih => rw [depthAll, Nat.max_le, ih, List.forall_mem_cons]

theorem depthEntries_le_iff {entries : List (Value × Value)} {d : Nat} :
    depthEntries entries ≤ d ↔ ∀ e ∈ entries, e.2.depth ≤ d := by
  induction entries with
  | nil => exact ⟨fun _ => nofun, fun _ => Nat.zero_le d⟩
  | cons e entries ih => rw [depthEntries, Nat.max_le, ih, List.forall_mem_cons]

theorem readBack_toInt (i : Int64) : Json.Number.ReadBack (.integer i.toInt) := by
  have hmin : -9223372036854775808 ≤ i.toInt := i.minValue_le_toInt
  have hmax : i.toInt ≤ 9223372036854775807 := i.toInt_le
  exact Json.Number.readBack_integer hmin (by omega)

mutual

/-- What is written for a value can be read. -/
theorem readable_document : ∀ (v : Value) {d : Nat}, v.depth ≤ d → Json.Readable d v.document
  | .null, _, _ => .null
  | .bool b, _, _ => .bool b
  | .int i, _, _ => .num (readBack_toInt i)
  | .str s, _, _ => .str s
  | .list items, _ + 1, h => .arr (readable_documentItems items (Nat.le_of_succ_le_succ h))
  | .tuple items, _ + 1, h => .arr (readable_documentItems items (Nat.le_of_succ_le_succ h))
  | .dict entries, _ + 1, h => .obj (readable_documentEntries entries (Nat.le_of_succ_le_succ h))

theorem readable_documentItems : ∀ (items : List Value) {d : Nat}, depthAll items ≤ d →
    ∀ j ∈ documentItems items, Json.Readable d j
  | [], _, _ => nofun
  | v :: rest, _, h => List.forall_mem_cons.mpr
      ⟨readable_document v (Nat.max_le.mp h).1, readable_documentItems rest (Nat.max_le.mp h).2⟩

theorem readable_documentEntries : ∀ (entries : List (Value × Value)) {d : Nat},
    depthEntries entries ≤ d → ∀ m ∈ documentEntries entries, Json.Readable d m.2
  | [], _, _ => nofun
  | (_, v) :: rest, _, h => List.forall_mem_cons.mpr
      ⟨readable_document v (Nat.max_le.mp h).1, readable_documentEntries rest (Nat.max_le.mp h).2⟩

end

mutual

/-- The view of a value is what a reader sees of its document. -/
theorem canonical_document : ∀ v : Value, v.document.canonical = v.toJson
  | .null => rfl
  | .bool _ => rfl
  | .int _ => rfl
  | .str _ => rfl
  | .list items => congrArg Json.arr (canonicalItems_document items)
  | .tuple items => congrArg Json.arr (canonicalItems_document items)
  | .dict entries => congrArg Json.object (canonicalMembers_document entries)

theorem canonicalItems_document : ∀ items : List Value,
    Json.canonicalItems (documentItems items) = toJsonItems items
  | [] => rfl
  | v :: rest => congrArg₂ List.cons (canonical_document v) (canonicalItems_document rest)

theorem canonicalMembers_document : ∀ entries : List (Value × Value),
    Json.canonicalMembers (documentEntries entries) = toJsonEntries entries
  | [] => rfl
  | (k, v) :: rest => congrArg₂ List.cons (congrArg (Prod.mk (memberName k)) (canonical_document v))
      (canonicalMembers_document rest)

end

/-- What is written for a value is read as its view, in both layouts. -/
theorem read?_document {v : Value} (h : v.depth ≤ Json.nestingLimit) {after : String}
    (hafter : Json.Blank after.toList) :
    Json.read? (v.document.compact ++ after) = some v.toJson ∧
      Json.read? (v.document.indented ++ after) = some v.toJson := by
  have hreadable : Json.Readable Json.nestingLimit v.document := readable_document v h
  rw [← canonical_document]
  exact ⟨Json.read?_compact hreadable (Nat.le_refl _) hafter,
    Json.read?_indented hreadable (Nat.le_refl _) hafter⟩

/-! ## Reading back -/

/-- The values in which the keys of every dict are strings, and distinct. -/
inductive Plain : Value → Prop
  | null : Plain .null
  | bool (b : Bool) : Plain (.bool b)
  | int (i : Int64) : Plain (.int i)
  | str (s : String) : Plain (.str s)
  | list {items : List Value} : (∀ v ∈ items, Plain v) → Plain (.list items)
  | tuple {items : List Value} : (∀ v ∈ items, Plain v) → Plain (.tuple items)
  | dict {entries : List (String × Value)} : (entries.map (·.1)).Nodup →
      (∀ e ∈ entries, Plain e.2) → Plain (.dict (stringKeyed entries))

theorem properKeys_stringKeyed {entries : List (String × Value)}
    (h : (entries.map (·.1)).Nodup) : ProperKeys (stringKeyed entries) := by
  refine ⟨List.forall_mem_map.mpr fun e _ => .str e.1, ?_⟩
  have hkeys : (stringKeyed entries).map (·.1) = (entries.map (·.1)).map .str := by
    rw [stringKeyed, List.map_map, List.map_map]
    rfl
  rw [hkeys]
  exact h.map fun _ _ heq => by cases heq; rfl

theorem Plain.wellKeyed {v : Value} (h : Plain v) : WellKeyed v := by
  induction h with
  | null => exact .null
  | bool b => exact .bool b
  | int i => exact .int i
  | str s => exact .str s
  | list _ ih => exact .list ih
  | tuple _ ih => exact .tuple ih
  | dict hnodup _ ih =>
      exact .dict (properKeys_stringKeyed hnodup) (List.forall_mem_map.mpr ih)

/-- A value has been read for another. -/
def ReadFor (w v : Value) : Prop := Plain w ∧ Matches w v

theorem ofJson_toInt (i : Int64) : ofJson (.num (.integer i.toInt)) = .ok (.int i) := by
  have hfits : fitsInt64 i.toInt = true := by
    rw [fitsInt64, Bool.and_eq_true, decide_eq_true_eq, decide_eq_true_eq]
    exact ⟨i.minValue_le_toInt, i.toInt_le⟩
  rw [ofJson, if_pos hfits, Int64.ofInt_toInt]

/-- The views of values are read one by one. -/
theorem exists_ofJsonItems {R : Value → Value → Prop} {items : List Value}
    (h : ∀ v ∈ items, ∃ w, ofJson v.toJson = .ok w ∧ R w v) :
    ∃ read, ofJsonItems (toJsonItems items) = .ok read ∧ List.Forall₂ R read items := by
  induction items with
  | nil => exact ⟨[], rfl, .nil⟩
  | cons v items ih =>
      obtain ⟨⟨w, hw, hread⟩, hrest⟩ := List.forall_mem_cons.mp h
      obtain ⟨read, hitems, hall⟩ := ih hrest
      refine ⟨w :: read, ?_, .cons hread hall⟩
      rw [toJsonItems, ofJsonItems, hw, hitems]
      rfl

theorem plain_of_forall₂ {read items : List Value} (h : List.Forall₂ ReadFor read items) :
    ∀ w ∈ read, Plain w := by
  induction h with
  | nil => exact nofun
  | cons hread _ ih => exact List.forall_mem_cons.mpr ⟨hread.1, ih⟩

theorem matches_of_forall₂ {read items : List Value} (h : List.Forall₂ ReadFor read items) :
    read.length = items.length ∧
      ∀ (i : Nat) e a, read[i]? = some e → items[i]? = some a → Matches e a := by
  induction h with
  | nil => exact ⟨rfl, fun _ _ _ he => (nomatch he)⟩
  | cons hread _ ih =>
      exact ⟨congrArg Nat.succ ih.1, forall_getElem?_cons.mpr ⟨hread.2, ih.2⟩⟩

/-- A new name goes to the end. -/
theorem insertEntry_stringKeyed {name : String} {entries : List (String × Value)}
    (h : name ∉ entries.map (·.1)) (v : Value) :
    Dict.insertEntry (.str name) v (stringKeyed entries) =
      stringKeyed (entries ++ [(name, v)]) := by
  rw [insertEntry_of_forall_ne, stringKeyed, stringKeyed, List.map_append]
  · rfl
  · refine List.forall_mem_map.mpr fun e he => Bool.eq_false_iff.mpr fun heqv => h ?_
    cases (Flat.str e.1).eq_of_eqv heqv
    exact List.mem_map_of_mem he

/-- Members with new names become entries at the end. -/
theorem exists_ofJsonMembers {P : String × Json → Value → Prop} {members : List (String × Json)}
    (h : ∀ m ∈ members, ∃ w, ofJson m.2 = .ok w ∧ P m w) {before : List (String × Value)}
    (hnodup : (before.map (·.1) ++ members.map (·.1)).Nodup) :
    ∃ named, ofJsonMembers members ⟨stringKeyed before⟩ = .ok ⟨stringKeyed (before ++ named)⟩ ∧
      List.Forall₂ (fun e m => e.1 = m.1 ∧ P m e.2) named members := by
  induction members generalizing before with
  | nil => exact ⟨[], by rw [List.append_nil]; rfl, .nil⟩
  | cons m members ih =>
      obtain ⟨name, json⟩ := m
      obtain ⟨⟨w, hw, hP⟩, hrest⟩ := List.forall_mem_cons.mp h
      have hnew : name ∉ before.map (·.1) := by
        intro hmem
        exact (List.nodup_append.mp hnodup).2.2 name hmem name List.mem_cons_self rfl
      have hnodup' : ((before ++ [(name, w)]).map (·.1) ++ members.map (·.1)).Nodup := by
        simpa using hnodup
      obtain ⟨named, hmembers, hall⟩ := ih hrest hnodup'
      refine ⟨(name, w) :: named, ?_, .cons ⟨rfl, hP⟩ hall⟩
      rw [ofJsonMembers, hw, ok_bind, Dict.insert, insertEntry_stringKeyed hnew, hmembers,
        List.append_assoc]
      rfl

theorem names_of_forall₂ {P : String × Json → Value → Prop} {named : List (String × Value)}
    {members : List (String × Json)}
    (h : List.Forall₂ (fun e m => e.1 = m.1 ∧ P m e.2) named members) :
    named.map (·.1) = members.map (·.1) := by
  induction h with
  | nil => rfl
  | cons hfirst _ ih => exact congrArg₂ List.cons hfirst.1 ih

theorem exists_member_of_forall₂ {P : String × Json → Value → Prop} {named : List (String × Value)}
    {members : List (String × Json)}
    (h : List.Forall₂ (fun e m => e.1 = m.1 ∧ P m e.2) named members) :
    ∀ e ∈ named, ∃ m, e.1 = m.1 ∧ P m e.2 := by
  induction h with
  | nil => exact List.forall_mem_nil _
  | cons hfirst _ ih => exact List.forall_mem_cons.mpr ⟨⟨_, hfirst⟩, ih⟩

theorem toJsonEntries_eq_map (entries : List (Value × Value)) :
    toJsonEntries entries = entries.map fun e => (e.1.memberName, e.2.toJson) := by
  induction entries with
  | nil => rfl
  | cons e entries ih => exact congrArg (List.cons _) ih

theorem toJsonEntries_stringKeyed (entries : List (String × Value)) :
    toJsonEntries (stringKeyed entries) = entries.map fun e => (e.1, e.2.toJson) := by
  rw [toJsonEntries_eq_map, stringKeyed, List.map_map]
  rfl

theorem mem_stringKeyed {entries : List (String × Value)} {k v : Value} :
    (k, v) ∈ stringKeyed entries ↔ ∃ name, k = .str name ∧ (name, v) ∈ entries := by
  rw [stringKeyed, List.mem_map]
  constructor
  · rintro ⟨e, he, heq⟩
    cases heq
    exact ⟨e.1, rfl, he⟩
  · rintro ⟨name, rfl, hmem⟩
    exact ⟨_, hmem, rfl⟩

theorem mem_keys_stringKeyed {entries : List (String × Value)} {k : Value} :
    k ∈ (stringKeyed entries).map (·.1) ↔ ∃ name, k = .str name ∧ name ∈ entries.map (·.1) := by
  rw [stringKeyed, List.map_map, List.mem_map]
  constructor
  · rintro ⟨e, he, rfl⟩
    exact ⟨e.1, rfl, List.mem_map_of_mem he⟩
  · rintro ⟨name, rfl, hmem⟩
    obtain ⟨e, he, rfl⟩ := List.mem_map.mp hmem
    exact ⟨e, he, rfl⟩

/-- Entries with the same names match if the values under each name do. -/
theorem matches_stringKeyed {xs ys : List (String × Value)}
    (hnames : ∀ name, name ∈ xs.map (·.1) ↔ name ∈ ys.map (·.1))
    (hvalues : ∀ name e a, (name, e) ∈ xs → (name, a) ∈ ys → Matches e a) :
    Matches (.dict (stringKeyed xs)) (.dict (stringKeyed ys)) := by
  refine .dict (fun k => ?_) fun k e a he ha => ?_
  · rw [mem_keys_stringKeyed, mem_keys_stringKeyed]
    exact exists_congr fun name => and_congr_right fun _ => hnames name
  · obtain ⟨name, rfl, hexpected⟩ := mem_stringKeyed.mp he
    obtain ⟨_, heq, hactual⟩ := mem_stringKeyed.mp ha
    cases heq
    exact hvalues name e a hexpected hactual

/-- The dict that is read for a dict with distinct string keys has the same keys, each with the
value that is read for its value. -/
theorem exists_ofJson_dict {R : Value → Value → Prop} {entries : List (String × Value)}
    (hnodup : (entries.map (·.1)).Nodup)
    (h : ∀ e ∈ entries, ∃ w, ofJson e.2.toJson = .ok w ∧ R w e.2) :
    ∃ named, ofJson (toJson (.dict (stringKeyed entries))) = .ok (.dict (stringKeyed named)) ∧
      (named.map (·.1)).Nodup ∧ (∀ name, name ∈ named.map (·.1) ↔ name ∈ entries.map (·.1)) ∧
      ∀ name w v, (name, w) ∈ named → (name, v) ∈ entries → R w v := by
  have hview : toJson (.dict (stringKeyed entries)) =
      Json.object (entries.map fun e => (e.1, e.2.toJson)) :=
    congrArg Json.object (toJsonEntries_stringKeyed entries)
  have hnames : (entries.map fun e => (e.1, e.2.toJson)).map (·.1) = entries.map (·.1) := by
    rw [List.map_map]
    rfl
  have hsorted : ∀ m, m ∈ Json.sortedMembers (entries.map fun e => (e.1, e.2.toJson)) ↔
      ∃ e ∈ entries, (e.1, e.2.toJson) = m := by
    intro m
    rw [Json.mem_sortedMembers (hnames ▸ hnodup), List.mem_map]
  have hmembers : ∀ m ∈ Json.sortedMembers (entries.map fun e => (e.1, e.2.toJson)),
      ∃ w, ofJson m.2 = .ok w ∧ ∃ v, (m.1, v) ∈ entries ∧ R w v := by
    intro m hm
    obtain ⟨e, he, rfl⟩ := (hsorted m).mp hm
    obtain ⟨w, hw, hR⟩ := h e he
    exact ⟨w, hw, e.2, he, hR⟩
  let P (m : String × Json) (w : Value) : Prop := ∃ v, (m.1, v) ∈ entries ∧ R w v
  obtain ⟨named, hread, hall⟩ :=
    @exists_ofJsonMembers P _ hmembers [] (Json.nodup_sortedMembers _)
  have hkeys := names_of_forall₂ hall
  refine ⟨named, ?_, hkeys ▸ Json.nodup_sortedMembers _, fun name => ?_, fun name w v hw hv => ?_⟩
  · rw [hview, Json.object, ofJson]
    show (ofJsonMembers _ ⟨stringKeyed []⟩ >>= _) = _
    rw [hread]
    rfl
  · rw [hkeys]
    constructor
    · intro hmem
      obtain ⟨m, hm, rfl⟩ := List.mem_map.mp hmem
      obtain ⟨e, he, rfl⟩ := (hsorted m).mp hm
      exact List.mem_map_of_mem he
    · intro hmem
      obtain ⟨e, he, rfl⟩ := List.mem_map.mp hmem
      exact List.mem_map.mpr ⟨_, (hsorted _).mpr ⟨e, he, rfl⟩, rfl⟩
  · obtain ⟨m, hname, v', hv', hR⟩ := exists_member_of_forall₂ hall _ hw
    have hsame : v' = v := congrArg Prod.snd (List.inj_on_of_nodup_map hnodup hv' hv hname.symm)
    exact hsame ▸ hR

/-- A relation of what is read to what was written that goes from the parts of values to the values:
lists are read for sequences of both kinds, and dicts for dicts with the same strings for keys. -/
structure FollowsParts (R : Value → Value → Prop) : Prop where
  null : R .null .null
  bool (b : Bool) : R (.bool b) (.bool b)
  int (i : Int64) : R (.int i) (.int i)
  str (s : String) : R (.str s) (.str s)
  list {read items : List Value} : List.Forall₂ R read items → R (.list read) (.list items)
  tuple {read items : List Value} : List.Forall₂ R read items → R (.list read) (.tuple items)
  dict {named entries : List (String × Value)} : (named.map (·.1)).Nodup →
    (entries.map (·.1)).Nodup → (∀ name, name ∈ named.map (·.1) ↔ name ∈ entries.map (·.1)) →
    (∀ name w v, (name, w) ∈ named → (name, v) ∈ entries → R w v) →
    R (.dict (stringKeyed named)) (.dict (stringKeyed entries))

/-- What is read for a plain value is related to it as its parts are. -/
theorem Plain.exists_ofJson {R : Value → Value → Prop} (hR : FollowsParts R) {v : Value}
    (h : Plain v) : ∃ w, ofJson v.toJson = .ok w ∧ R w v := by
  induction h with
  | null => exact ⟨.null, rfl, hR.null⟩
  | bool b => exact ⟨.bool b, rfl, hR.bool b⟩
  | int i => exact ⟨.int i, ofJson_toInt i, hR.int i⟩
  | str s => exact ⟨.str s, rfl, hR.str s⟩
  | list _ ih =>
      obtain ⟨read, hread, hall⟩ := exists_ofJsonItems ih
      refine ⟨.list read, ?_, hR.list hall⟩
      rw [toJson, ofJson, hread]
      rfl
  | tuple _ ih =>
      obtain ⟨read, hread, hall⟩ := exists_ofJsonItems ih
      refine ⟨.list read, ?_, hR.tuple hall⟩
      rw [toJson, ofJson, hread]
      rfl
  | dict hnodup _ ih =>
      obtain ⟨named, hread, hnames, hsame, hall⟩ := exists_ofJson_dict hnodup ih
      exact ⟨_, hread, hR.dict hnames hnodup hsame hall⟩

/-- Every value under one of the names stands beside a value under the same name. -/
theorem exists_mem_of_names {named entries : List (String × Value)}
    (h : ∀ name, name ∈ named.map (·.1) ↔ name ∈ entries.map (·.1)) {name : String} {w : Value}
    (hw : (name, w) ∈ named) : ∃ v, (name, v) ∈ entries := by
  obtain ⟨⟨_, v⟩, hv, rfl⟩ := List.mem_map.mp ((h name).mp (List.mem_map_of_mem hw))
  exact ⟨v, hv⟩

/-- What is read for a plain value is plain, and the value matches it. -/
theorem followsParts_readFor : FollowsParts ReadFor where
  null := ⟨.null, .equal rfl rfl⟩
  bool b := ⟨.bool b, .equal rfl (Flat.bool b).eqv_self⟩
  int i := ⟨.int i, .equal rfl (Flat.int i).eqv_self⟩
  str s := ⟨.str s, .equal rfl (Flat.str s).eqv_self⟩
  list hall := ⟨.list (plain_of_forall₂ hall), matches_list_iff.mpr (matches_of_forall₂ hall)⟩
  tuple hall := ⟨.list (plain_of_forall₂ hall), matches_listTuple_iff.mpr (matches_of_forall₂ hall)⟩
  dict hnames _ hsame hall := by
    refine ⟨.dict hnames fun e he => ?_, matches_stringKeyed hsame fun name w v hw hv =>
      (hall name w v hw hv).2⟩
    obtain ⟨v, hv⟩ := exists_mem_of_names hsame he
    exact (hall e.1 e.2 v he hv).1

end Value

end DepsManifest
