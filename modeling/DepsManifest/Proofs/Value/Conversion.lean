import DepsManifest.Proofs.Value.Equality
import DepsManifest.Proofs.Value.View
/-! # Conversion from JSON and back

Conversion from JSON fails only for numbers, and with the first number that no value represents
(`Value.stopsIn_ofJson`). Where it succeeds, a JSON value in order is the view of what it is
converted to (`Value.exists_ofJson_eq`). The other way round something is lost: the view has a tuple
as an array, which is read as a list, and the entries of a dict in the order of their names. So a
value with strings for keys is read back up to its tuples and up to equality, which does not see the
order of entries (`Value.followsParts_equalsUntupled`). `Value.conversions_inverse` is all of this.
-/
namespace DepsManifest

namespace Json

/-! ## Numbers -/

/-- The whole numbers of 64 bits with their sign. -/
def Number.IsInt64 (n : Number) : Prop := ∃ i : Int64, n = .integer i.toInt

/-- Whether a value represents a number. -/
def Number.fitsInt64 : Number → Bool
  | .integer i => Value.fitsInt64 i
  | .float _ _ => false

theorem Number.fitsInt64_iff {n : Number} : n.fitsInt64 = true ↔ n.IsInt64 := by
  constructor
  · intro h
    cases n with
    | float negative magnitude => cases h
    | integer i =>
        rw [fitsInt64, Value.fitsInt64, Bool.and_eq_true, decide_eq_true_eq, decide_eq_true_eq] at h
        exact ⟨Int64.ofInt i, congrArg Number.integer (Int64.toInt_ofInt_of_le h.1 (by omega)).symm⟩
  · rintro ⟨i, rfl⟩
    rw [fitsInt64, Value.fitsInt64, Bool.and_eq_true, decide_eq_true_eq, decide_eq_true_eq]
    exact ⟨i.minValue_le_toInt, i.toInt_le⟩

mutual

/-- The numbers of a value, in the order of a traversal: arrays element by element, objects member
by member. -/
def numbers : Json → List Number
  | .num n => [n]
  | .arr items => numbersOfItems items
  | .obj members => numbersOfMembers members
  | _ => []

def numbersOfItems : List Json → List Number
  | [] => []
  | item :: rest => numbers item ++ numbersOfItems rest

def numbersOfMembers : List (String × Json) → List Number
  | [] => []
  | (_, value) :: rest => numbers value ++ numbersOfMembers rest

end

theorem mem_numbersOfItems {items : List Json} {n : Number} :
    n ∈ numbersOfItems items ↔ ∃ j ∈ items, n ∈ j.numbers := by
  induction items with
  | nil => exact ⟨nofun, nofun⟩
  | cons item items ih => rw [numbersOfItems, List.mem_append, ih, List.exists_mem_cons_iff]

theorem mem_numbersOfMembers {members : List (String × Json)} {n : Number} :
    n ∈ numbersOfMembers members ↔ ∃ m ∈ members, n ∈ m.2.numbers := by
  induction members with
  | nil => exact ⟨nofun, nofun⟩
  | cons m members ih => rw [numbersOfMembers, List.mem_append, ih, List.exists_mem_cons_iff]

end Json

namespace Value

open Json (Number)

/-! ## Where a conversion fails -/

/-- A result stops at the first of some numbers that is no whole number of 64 bits; if there is
none, it gives a value. -/
def StopsIn {α : Type} (ns : List Number) (x : Except NumberError α) : Prop :=
  match ns.find? fun n => !n.fitsInt64 with
  | some n => x = .error ⟨n⟩
  | none => ∃ a, x = .ok a

theorem stopsIn_ok {α : Type} (a : α) : StopsIn [] (.ok a : Except NumberError α) := ⟨a, rfl⟩

theorem StopsIn.bind {α β : Type} {ns ms : List Number} {x : Except NumberError α}
    {f : α → Except NumberError β} (hx : StopsIn ns x) (hf : ∀ a, StopsIn ms (f a)) :
    StopsIn (ns ++ ms) (x >>= f) := by
  unfold StopsIn at *
  rw [List.find?_append]
  cases hfind : ns.find? fun n => !n.fitsInt64 with
  | some n =>
      rw [hfind] at hx
      exact bind_eq_error.mpr (.inl hx)
  | none =>
      rw [hfind] at hx
      obtain ⟨a, rfl⟩ := hx
      exact hf a

theorem StopsIn.map {α β : Type} {ns : List Number} {x : Except NumberError α} (hx : StopsIn ns x)
    (f : α → β) : StopsIn ns (x >>= fun a => .ok (f a)) := by
  have h := hx.bind fun a => stopsIn_ok (f a)
  rwa [List.append_nil] at h

theorem stopsIn_num (n : Number) : StopsIn [n] (ofJson (.num n)) := by
  cases n with
  | float negative magnitude => rfl
  | integer i =>
      unfold StopsIn
      rw [List.find?_singleton, Number.fitsInt64, ofJson]
      cases fitsInt64 i with
      | true => exact ⟨_, rfl⟩
      | false => rfl

mutual

/-- A conversion stops at the first number that no value represents. -/
theorem stopsIn_ofJson : ∀ j : Json, StopsIn j.numbers (ofJson j)
  | .null => stopsIn_ok _
  | .bool _ => stopsIn_ok _
  | .num n => stopsIn_num n
  | .str _ => stopsIn_ok _
  | .arr items => (stopsIn_ofJsonItems items).map _
  | .obj members => (stopsIn_ofJsonMembers members _).map _

theorem stopsIn_ofJsonItems : ∀ items : List Json,
    StopsIn (Json.numbersOfItems items) (ofJsonItems items)
  | [] => stopsIn_ok _
  | item :: rest => (stopsIn_ofJson item).bind fun _ => (stopsIn_ofJsonItems rest).map _

theorem stopsIn_ofJsonMembers : ∀ (members : List (String × Json)) (d : Dict),
    StopsIn (Json.numbersOfMembers members) (ofJsonMembers members d)
  | [], d => stopsIn_ok d
  | (_, value) :: rest, _ => (stopsIn_ofJson value).bind fun _ => stopsIn_ofJsonMembers rest _

end

/-- Of numbers that come before one that no value represents all are represented, and the conversion
fails with that one. -/
theorem ofJson_eq_error {j : Json} {before after : List Number} {n : Number}
    (hnumbers : j.numbers = before ++ n :: after) (hbefore : ∀ m ∈ before, m.IsInt64)
    (hn : ¬ n.IsInt64) : ofJson j = .error ⟨n⟩ := by
  have hstops := stopsIn_ofJson j
  have hnone : before.find? (fun m => !m.fitsInt64) = none := by
    refine List.find?_eq_none.mpr fun m hm hunfit => ?_
    rw [Number.fitsInt64_iff.mpr (hbefore m hm)] at hunfit
    cases hunfit
  have hfirst : j.numbers.find? (fun m => !m.fitsInt64) = some n := by
    rw [hnumbers, List.find?_append, hnone, Option.none_or, List.find?_cons_of_pos]
    rw [Bool.eq_false_iff.mpr (hn ∘ Number.fitsInt64_iff.mp)]
    rfl
  unfold StopsIn at hstops
  rwa [hfirst] at hstops

/-! ## From JSON to values and back -/

theorem exists_ofJsonItems_eq {items : List Json}
    (h : ∀ j ∈ items, ∃ v, ofJson j = .ok v ∧ v.toJson = j) :
    ∃ read, ofJsonItems items = .ok read ∧ toJsonItems read = items := by
  induction items with
  | nil => exact ⟨[], rfl, rfl⟩
  | cons j items ih =>
      obtain ⟨⟨v, hv, hback⟩, hrest⟩ := List.forall_mem_cons.mp h
      obtain ⟨read, hread, hbacks⟩ := ih hrest
      refine ⟨v :: read, ?_, congrArg₂ List.cons hback hbacks⟩
      rw [ofJsonItems, hv, hread]
      rfl

theorem toJsonEntries_of_forall₂ {named : List (String × Value)} {members : List (String × Json)}
    (h : List.Forall₂ (fun e m => e.1 = m.1 ∧ e.2.toJson = m.2) named members) :
    toJsonEntries (stringKeyed named) = members := by
  rw [toJsonEntries_stringKeyed]
  induction h with
  | nil => rfl
  | cons hfirst _ ih => exact congrArg₂ List.cons (Prod.ext hfirst.1 hfirst.2) ih

/-- A value in order with whole numbers of 64 bits is converted to one of which it is the view. -/
theorem exists_ofJson_eq {j : Json} (hordered : j.Ordered) (hnumbers : ∀ n ∈ j.numbers, n.IsInt64) :
    ∃ v, ofJson j = .ok v ∧ v.toJson = j := by
  induction hordered with
  | null => exact ⟨.null, rfl, rfl⟩
  | bool b => exact ⟨.bool b, rfl, rfl⟩
  | str s => exact ⟨.str s, rfl, rfl⟩
  | num n =>
      obtain ⟨i, rfl⟩ := hnumbers n List.mem_cons_self
      exact ⟨.int i, ofJson_toInt i, rfl⟩
  | @arr items _ ih =>
      obtain ⟨read, hread, hback⟩ := exists_ofJsonItems_eq fun j hj =>
        ih j hj fun n hn => hnumbers n (Json.mem_numbersOfItems.mpr ⟨j, hj, hn⟩)
      refine ⟨.list read, ?_, congrArg Json.arr hback⟩
      rw [ofJson, hread]
      rfl
  | @obj members hsorted _ ih =>
      have hmembers : ∀ m ∈ members, ∃ v, ofJson m.2 = .ok v ∧ v.toJson = m.2 := fun m hm =>
        ih m hm fun n hn => hnumbers n (Json.mem_numbersOfMembers.mpr ⟨m, hm, hn⟩)
      have hnodup : (([] : List (String × Value)).map (·.1) ++ members.map (·.1)).Nodup :=
        NameMap.nodup_names ⟨members, hsorted⟩
      obtain ⟨named, hread, hback⟩ :=
        @exists_ofJsonMembers (fun m v => v.toJson = m.2) _ hmembers [] hnodup
      refine ⟨.dict (stringKeyed named), ?_, ?_⟩
      · rw [ofJson]
        show (ofJsonMembers _ ⟨stringKeyed []⟩ >>= _) = _
        rw [hread]
        rfl
      · rw [toJson, toJsonEntries_of_forall₂ hback, Json.object, Json.sortedMembers_eq_self hsorted]

/-! ## From values to JSON and back -/

/-- The values in which all keys of dicts are strings. -/
inductive KeyedByStrings : Value → Prop
  | null : KeyedByStrings .null
  | bool (b : Bool) : KeyedByStrings (.bool b)
  | int (i : Int64) : KeyedByStrings (.int i)
  | str (s : String) : KeyedByStrings (.str s)
  | list {items : List Value} : (∀ v ∈ items, KeyedByStrings v) → KeyedByStrings (.list items)
  | tuple {items : List Value} : (∀ v ∈ items, KeyedByStrings v) → KeyedByStrings (.tuple items)
  | dict {entries : List (Value × Value)} : (∀ e ∈ entries, ∃ name, e.1 = .str name) →
      (∀ e ∈ entries, KeyedByStrings e.2) → KeyedByStrings (.dict entries)

/-- Strings that are keys of one constructed dict are distinct. -/
theorem nodup_of_pairwise {entries : List (String × Value)}
    (h : (stringKeyed entries).Pairwise fun a b => (a.1 == b.1) = false) :
    (entries.map (·.1)).Nodup := by
  rw [stringKeyed, List.pairwise_map] at h
  refine List.pairwise_map.mpr (h.imp fun {a b} hne heq => ?_)
  rw [heq] at hne
  exact Bool.eq_false_iff.mp hne (Flat.str b.1).eqv_self

theorem plain_dict {entries : List (Value × Value)}
    (hkeys : ∀ e ∈ entries, ∃ name, e.1 = .str name) (hv : Constructible (.dict entries))
    (hvalues : ∀ e ∈ entries, Constructible e.2 → Plain e.2) : Plain (.dict entries) := by
  obtain ⟨named, rfl⟩ := exists_eq_stringKeyed hkeys
  cases hv with
  | dict hpairwise _ hall =>
      refine .dict (nodup_of_pairwise hpairwise) fun e he => ?_
      have hmem : (.str e.1, e.2) ∈ stringKeyed named := List.mem_map_of_mem he
      exact hvalues _ hmem (hall _ hmem)

theorem KeyedByStrings.plain {v : Value} (h : KeyedByStrings v) (hv : Constructible v) :
    Plain v := by
  induction h with
  | null => exact .null
  | bool b => exact .bool b
  | int i => exact .int i
  | str s => exact .str s
  | list _ ih =>
      cases hv with
      | list hitems => exact .list fun x hx => ih x hx (hitems x hx)
  | tuple _ ih =>
      cases hv with
      | tuple hitems => exact .tuple fun x hx => ih x hx (hitems x hx)
  | dict hkeys _ ih => exact plain_dict hkeys hv ih

mutual

/-- A value with a list in the place of each tuple. Keys stay as they are. -/
def untupled : Value → Value
  | .list items => .list (untupledItems items)
  | .tuple items => .list (untupledItems items)
  | .dict entries => .dict (untupledEntries entries)
  | v => v

def untupledItems : List Value → List Value
  | [] => []
  | item :: rest => untupled item :: untupledItems rest

def untupledEntries : List (Value × Value) → List (Value × Value)
  | [] => []
  | (k, v) :: rest => (k, untupled v) :: untupledEntries rest

end

theorem untupledItems_eq_map (items : List Value) : untupledItems items = items.map untupled := by
  induction items with
  | nil => rfl
  | cons item items ih => rw [untupledItems, ih, List.map_cons]

theorem untupledEntries_stringKeyed (entries : List (String × Value)) :
    untupledEntries (stringKeyed entries) =
      stringKeyed (entries.map fun e => (e.1, e.2.untupled)) := by
  induction entries with
  | nil => rfl
  | cons e entries ih => exact congrArg (List.cons _) ih

theorem Plain.untupled {v : Value} (h : Plain v) : Plain v.untupled := by
  induction h with
  | null => exact .null
  | bool b => exact .bool b
  | int i => exact .int i
  | str s => exact .str s
  | list _ ih =>
      rw [Value.untupled, untupledItems_eq_map]
      exact .list (List.forall_mem_map.mpr ih)
  | tuple _ ih =>
      rw [Value.untupled, untupledItems_eq_map]
      exact .list (List.forall_mem_map.mpr ih)
  | dict hnodup _ ih =>
      rw [Value.untupled, untupledEntries_stringKeyed]
      refine .dict ?_ (List.forall_mem_map.mpr ih)
      rw [List.map_map]
      exact hnodup

/-- A value is equal to another with lists in the place of tuples, and both are plain. -/
structure EqualsUntupled (w v : Value) : Prop where
  plain_left : Plain w
  plain_right : Plain v
  equal : eqv w v.untupled = true

theorem equalsUntupled_list {read items : List Value} (h : List.Forall₂ EqualsUntupled read items) :
    (∀ w ∈ read, Plain w) ∧ (∀ v ∈ items, Plain v) ∧ eqvAll read (untupledItems items) = true := by
  induction h with
  | nil => exact ⟨List.forall_mem_nil _, List.forall_mem_nil _, rfl⟩
  | cons hfirst _ ih =>
      exact ⟨List.forall_mem_cons.mpr ⟨hfirst.plain_left, ih.1⟩,
        List.forall_mem_cons.mpr ⟨hfirst.plain_right, ih.2.1⟩,
        Bool.and_eq_true_iff.mpr ⟨hfirst.equal, ih.2.2⟩⟩

/-- Each entry has an equal one if the names and the values under each name agree. -/
theorem within_stringKeyed {xs ys : List (String × Value)}
    (hnames : ∀ name, name ∈ xs.map (·.1) ↔ name ∈ ys.map (·.1))
    (hvalues : ∀ name v w, (name, v) ∈ xs → (name, w) ∈ ys → eqv v w = true) :
    Within (stringKeyed xs) (stringKeyed ys) := by
  rintro ⟨_, v⟩ he
  obtain ⟨name, rfl, hv⟩ := mem_stringKeyed.mp he
  obtain ⟨w, hw⟩ := exists_mem_of_names hnames hv
  exact ⟨_, mem_stringKeyed.mpr ⟨name, rfl, hw⟩, (Flat.str name).eqv_self, hvalues name v w hv hw⟩

/-- Dicts with the same strings for keys are equal if their values under each of them are. -/
theorem eqv_stringKeyed {xs ys : List (String × Value)} (hxs : Plain (.dict (stringKeyed xs)))
    (hys : Plain (.dict (stringKeyed ys)))
    (hnames : ∀ name, name ∈ xs.map (·.1) ↔ name ∈ ys.map (·.1))
    (hvalues : ∀ name v w, (name, v) ∈ xs → (name, w) ∈ ys → eqv v w = true) :
    eqv (.dict (stringKeyed xs)) (.dict (stringKeyed ys)) = true := by
  have hP := equivalenceOn_constructible
  have hdistinct := hxs.wellKeyed.constructible.distinctEntries
  have hdistinct' := hys.wellKeyed.constructible.distinctEntries
  refine (hP.eqv_dict_iff hdistinct hdistinct').mpr ⟨within_stringKeyed hnames hvalues,
    within_stringKeyed (fun name => (hnames name).symm) fun name w v hw hv => ?_⟩
  exact hP.symm (hdistinct.value _ (mem_stringKeyed.mpr ⟨name, rfl, hv⟩))
    (hdistinct'.value _ (mem_stringKeyed.mpr ⟨name, rfl, hw⟩)) (hvalues name v w hv hw)

/-- What is read for a plain value is that value with lists in the place of tuples. -/
theorem followsParts_equalsUntupled : FollowsParts EqualsUntupled where
  null := ⟨.null, .null, Flat.null.eqv_self⟩
  bool b := ⟨.bool b, .bool b, (Flat.bool b).eqv_self⟩
  int i := ⟨.int i, .int i, (Flat.int i).eqv_self⟩
  str s := ⟨.str s, .str s, (Flat.str s).eqv_self⟩
  list hall := by
    obtain ⟨hread, hitems, hequal⟩ := equalsUntupled_list hall
    exact ⟨.list hread, .list hitems, hequal⟩
  tuple hall := by
    obtain ⟨hread, hitems, hequal⟩ := equalsUntupled_list hall
    exact ⟨.list hread, .tuple hitems, hequal⟩
  dict {named entries} hnames hnames' hsame hall := by
    have hnamed : Plain (.dict (stringKeyed named)) := .dict hnames fun e he =>
      have ⟨v, hv⟩ := exists_mem_of_names hsame he
      (hall e.1 e.2 v he hv).plain_left
    have hentries : Plain (.dict (stringKeyed entries)) := .dict hnames' fun e he =>
      have ⟨w, hw⟩ := exists_mem_of_names (fun name => (hsame name).symm) he
      (hall e.1 w e.2 hw he).plain_right
    refine ⟨hnamed, hentries, ?_⟩
    have huntupled := hentries.untupled
    rw [Value.untupled, untupledEntries_stringKeyed] at huntupled ⊢
    refine eqv_stringKeyed hnamed huntupled (fun name => ?_) fun name w u hw hu => ?_
    · rw [hsame, List.map_map]
      rfl
    · obtain ⟨⟨_, v⟩, hv, heq⟩ := List.mem_map.mp hu
      cases heq
      exact (hall _ w v hw hv).equal

/-- Conversion from JSON and conversion to JSON undo each other. A value in order whose numbers are
whole numbers of 64 bits is converted to one of which it is the view; with another number among its
numbers the first of these is the error. And the view of a built value whose keys are strings is
converted to that value, but that tuples have become lists. -/
theorem conversions_inverse :
    (∀ j : Json, j.Ordered → (∀ n ∈ j.numbers, n.IsInt64) → ∃ v, ofJson j = .ok v ∧ v.toJson = j) ∧
      (∀ (j : Json) before n after, j.numbers = before ++ n :: after → (∀ m ∈ before, m.IsInt64) →
        ¬ n.IsInt64 → ∃ e, ofJson j = .error e ∧ e.number = n ∧ e.message =
          "unsupported number " ++ String.ofList n.text ++ ": only integers are representable") ∧
      ∀ v, Built v → KeyedByStrings v → ∃ w, ofJson v.toJson = .ok w ∧
        (w == v.untupled) = true := by
  refine ⟨fun j => exists_ofJson_eq, fun j before n after hnumbers hbefore hn =>
    ⟨⟨n⟩, ofJson_eq_error hnumbers hbefore hn, rfl, rfl⟩, fun v hv hkeys => ?_⟩
  obtain ⟨w, hw, hequal⟩ := (hkeys.plain hv.constructible).exists_ofJson followsParts_equalsUntupled
  exact ⟨w, hw, hequal.equal⟩

/-- A value in order with whole numbers of 64 bits. -/
def smallNumbers : Json :=
  .obj [("a", .arr [.num (.integer 1), .bool true]), ("b", .num (.integer (-2)))]

/-- A value with a whole number that is too large by one, and a fraction after it. -/
def largeNumber : Json :=
  .obj [("a", .arr [.num (.integer 1), .num (.integer 9223372036854775808)]),
    ("b", .num (.float false .zero))]

/-- A built value with tuples and with its keys out of order. -/
def withTuples : Value :=
  ((Dict.empty.insert (.str "b") (.tuple [.int 1, .list []])).insert (.str "a") (.tuple [])).toValue

theorem conversions_inverse_samples :
    (smallNumbers.Ordered ∧ (∀ n ∈ smallNumbers.numbers, n.IsInt64) ∧
      ∃ v, ofJson smallNumbers = .ok v ∧ v.toJson = smallNumbers) ∧
    ((Number.integer 1).IsInt64 ∧ ¬ (Number.integer 9223372036854775808).IsInt64 ∧
      ∃ e, ofJson largeNumber = .error e ∧
        e.message = "unsupported number 9223372036854775808: only integers are representable") ∧
    Built withTuples ∧ KeyedByStrings withTuples ∧
      ∃ w, ofJson withTuples.toJson = .ok w ∧ (w == withTuples.untupled) = true := by
  obtain ⟨hforth, herror, hback⟩ := conversions_inverse
  have hordered : smallNumbers.Ordered := by
    refine .obj (by decide)
      (List.forall_mem_cons.mpr ⟨.arr ?_, List.forall_mem_singleton.mpr (.num _)⟩)
    exact List.forall_mem_cons.mpr ⟨.num _, List.forall_mem_singleton.mpr (.bool _)⟩
  have hone : (Number.integer 1).IsInt64 := ⟨1, rfl⟩
  have hsmall : ∀ n ∈ smallNumbers.numbers, n.IsInt64 :=
    List.forall_mem_cons.mpr ⟨hone, List.forall_mem_singleton.mpr ⟨-2, rfl⟩⟩
  have hlarge : ¬ (Number.integer 9223372036854775808).IsInt64 := fun h =>
    Bool.false_ne_true (Number.fitsInt64_iff.mpr h)
  obtain ⟨e, he, -, hmessage⟩ := herror largeNumber [.integer 1] _ [.float false .zero] rfl
    (List.forall_mem_singleton.mpr hone) hlarge
  have hbuilt : Built withTuples :=
    .insert (.insert .empty (.str "b") (.tuple (List.forall_mem_cons.mpr
      ⟨.int 1, List.forall_mem_singleton.mpr (.list (List.forall_mem_nil _))⟩)))
      (.str "a") (.tuple (List.forall_mem_nil _))
  have hkeys : KeyedByStrings withTuples :=
    .dict (List.forall_mem_cons.mpr ⟨⟨"b", rfl⟩, List.forall_mem_singleton.mpr ⟨"a", rfl⟩⟩)
      (List.forall_mem_cons.mpr ⟨.tuple (List.forall_mem_cons.mpr
        ⟨.int 1, List.forall_mem_singleton.mpr (.list (List.forall_mem_nil _))⟩),
        List.forall_mem_singleton.mpr (.tuple (List.forall_mem_nil _))⟩)
  exact ⟨⟨hordered, hsmall, hforth _ hordered hsmall⟩,
    ⟨hone, hlarge, e, he, hmessage.trans rfl⟩, hbuilt, hkeys, hback _ hbuilt hkeys⟩

end Value

end DepsManifest
