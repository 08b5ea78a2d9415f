import DepsManifest.Proofs.Value.Constructible
import DepsManifest.Proofs.Value.Keys
import Mathlib.Data.List.Find
import Mathlib.Data.List.Pairwise
/-! # Equality of values is an equivalence

Equality of dicts is one-sided: as many entries, and for each entry of the first a lookup in the
second, where the first equal key decides. On constructed values it is an equivalence all the same
(`Value.equality_equivalence`), however dicts are nested in values and in keys. A lookup finds the
only equal key there is, since no two keys of a constructed dict are equal, and equally many entries
leave none of the second dict over.

Both of these use that equality is symmetric and transitive among the keys. So all three laws are
proved at once, by induction on a bound on the size of the values: if equality is an equivalence
among the parts (`EquivalenceOn`), then two dicts are equal exactly if each has for every entry of
the other an equal one (`EquivalenceOn.eqv_dict_iff`), and that is reflexive, symmetric and
transitive by its form.
-/
namespace DepsManifest

namespace Value

/-- Equality is an equivalence among the values with a property. -/
structure EquivalenceOn (P : Value → Prop) : Prop where
  refl {v : Value} : P v → eqv v v = true
  symm {v w : Value} : P v → P w → eqv v w = true → eqv w v = true
  trans {u v w : Value} : P u → P v → P w → eqv u v = true → eqv v w = true → eqv u w = true

/-- Every entry of the first dict has in the second one with an equal key and an equal value. -/
def Within (xs ys : List (Value × Value)) : Prop :=
  ∀ e ∈ xs, ∃ e' ∈ ys, eqv e.1 e'.1 = true ∧ eqv e.2 e'.2 = true

/-- Entries of which no two have equal keys, with a property of all keys and values. -/
structure DistinctEntries (P : Value → Prop) (entries : List (Value × Value)) : Prop where
  key : ∀ e ∈ entries, P e.1
  value : ∀ e ∈ entries, P e.2
  distinct : entries.Pairwise fun a b => (a.1 == b.1) = false

/-! ## Sequences -/

theorem eqvAll_symm {xs ys : List Value}
    (h : ∀ x ∈ xs, ∀ y ∈ ys, eqv x y = true → eqv y x = true) (hxs : eqvAll xs ys = true) :
    eqvAll ys xs = true := by
  obtain ⟨hlength, hplaces⟩ := eqvAll_iff.mp hxs
  refine eqvAll_iff.mpr ⟨hlength.symm, fun i y x hy hx => ?_⟩
  exact h x (List.mem_of_getElem? hx) y (List.mem_of_getElem? hy) (hplaces i x y hx hy)

theorem eqvAll_trans {xs ys zs : List Value}
    (h : ∀ x ∈ xs, ∀ y ∈ ys, ∀ z ∈ zs, eqv x y = true → eqv y z = true → eqv x z = true)
    (hxy : eqvAll xs ys = true) (hyz : eqvAll ys zs = true) : eqvAll xs zs = true := by
  obtain ⟨hlength, hplaces⟩ := eqvAll_iff.mp hxy
  obtain ⟨hlength', hplaces'⟩ := eqvAll_iff.mp hyz
  refine eqvAll_iff.mpr ⟨hlength.trans hlength', fun i x z hx hz => ?_⟩
  obtain ⟨hi, -⟩ := List.getElem?_eq_some_iff.mp hx
  have hy : ys[i]? = some ys[i] := List.getElem?_eq_getElem (hlength ▸ hi)
  exact h x (List.mem_of_getElem? hx) _ (List.mem_of_getElem? hy) z (List.mem_of_getElem? hz)
    (hplaces i x _ hx hy) (hplaces' i _ z hy hz)

/-! ## Dicts whose parts are compared by an equivalence -/

namespace EquivalenceOn

variable {P : Value → Prop} {xs ys zs : List (Value × Value)} (hP : EquivalenceOn P)

include hP

/-- Under a key that is equal to one of the keys there is one entry only. -/
theorem entry_unique (hys : DistinctEntries P ys) {k : Value} (hk : P k) {e e' : Value × Value}
    (he : e ∈ ys) (he' : e' ∈ ys) (hequal : eqv k e.1 = true) (hequal' : eqv k e'.1 = true) :
    e = e' := by
  -- The list says of the earlier key only that it is not equal to the later; both ways is
  -- symmetric.
  let apart (a b : Value × Value) : Prop := ¬(eqv a.1 b.1 = true ∧ eqv b.1 a.1 = true)
  have hsymm : Std.Symm apart := ⟨fun _ _ h hba => h hba.symm⟩
  have happart : ys.Pairwise apart := by
    refine hys.distinct.imp ?_
    intro a b hdistinct hab
    exact Bool.eq_false_iff.mp hdistinct hab.1
  have hkey := hys.key e he
  have hkey' := hys.key e' he'
  by_contra hne
  refine happart.forall he he' hne ⟨?_, ?_⟩
  · exact hP.trans hkey hk hkey' (hP.symm hk hkey hequal) hequal'
  · exact hP.trans hkey' hk hkey (hP.symm hk hkey' hequal') hequal

/-- A lookup finds the entry whose key is equal to the key. -/
theorem find?_eq_some (hys : DistinctEntries P ys) {k : Value} (hk : P k) {e : Value × Value}
    (he : e ∈ ys) (hequal : eqv k e.1 = true) : (ys.find? fun e => eqv k e.1) = some e := by
  have hsome : (ys.find? fun e => eqv k e.1).isSome = true := List.find?_isSome.mpr ⟨e, he, hequal⟩
  obtain ⟨e', hfind⟩ := Option.isSome_iff_exists.mp hsome
  have hfound := List.find?_some hfind
  rw [hfind, hP.entry_unique hys hk (List.mem_of_find?_eq_some hfind) he hfound hequal]

/-- The lookups of a comparison succeed if every entry has an equal one. -/
theorem eqvEntries_iff (hxs : ∀ e ∈ xs, P e.1) (hys : DistinctEntries P ys) :
    eqvEntries xs ys = true ↔ Within xs ys := by
  induction xs with
  | nil => exact ⟨fun _ => List.forall_mem_nil _, fun _ => rfl⟩
  | cons e xs ih =>
      obtain ⟨k, v⟩ := e
      obtain ⟨hk, hrest⟩ := List.forall_mem_cons.mp hxs
      rw [eqvEntries, Bool.and_eq_true, ih hrest, Within, Within, List.forall_mem_cons]
      refine and_congr_left fun _ => ?_
      constructor
      · intro h
        split at h
        · rename_i e' hfind
          have hfound := List.find?_some hfind
          exact ⟨e', List.mem_of_find?_eq_some hfind, hfound, h⟩
        · cases h
      · rintro ⟨e', he', hkey, hvalue⟩
        rw [hP.find?_eq_some hys hk he' hkey]
        exact hvalue

/-- Two keys are equal if the same values with the property are equal to both. -/
theorem class_eq_iff {k k' : Value} (hk : P k) (hk' : P k') :
    ((fun w : {w // P w} => eqv k w.1) = fun w => eqv k' w.1) ↔ eqv k k' = true := by
  constructor
  · intro h
    rw [congrFun h ⟨k', hk'⟩]
    exact hP.refl hk'
  · intro h
    funext ⟨w, hw⟩
    rw [Bool.eq_iff_iff]
    exact ⟨hP.trans hk' hk hw (hP.symm hk hk' h), hP.trans hk hk' hw h⟩

/-- The keys of a dict up to equality. -/
theorem subperm_classes (hxs : DistinctEntries P xs) (hys : DistinctEntries P ys)
    (h : Within xs ys) : (xs.map fun e => fun w : {w // P w} => eqv e.1 w.1).Subperm
      (ys.map fun e => fun w => eqv e.1 w.1) := by
  refine List.subperm_of_subset ?_ ?_
  · refine List.pairwise_map.mpr (hxs.distinct.imp_of_mem fun {a b} ha hb hdistinct hclass => ?_)
    exact Bool.eq_false_iff.mp hdistinct ((hP.class_eq_iff (hxs.key a ha) (hxs.key b hb)).mp hclass)
  · intro c hc
    obtain ⟨e, he, rfl⟩ := List.mem_map.mp hc
    obtain ⟨e', he', hkey, -⟩ := h e he
    rw [(hP.class_eq_iff (hxs.key e he) (hys.key e' he')).mpr hkey]
    exact List.mem_map_of_mem (f := fun e => fun w : {w // P w} => eqv e.1 w.1) he'

/-- If every entry has an equal one and there are no more of those, none of them is left over. -/
theorem within_of_length_le (hxs : DistinctEntries P xs) (hys : DistinctEntries P ys)
    (h : Within xs ys) (hlength : ys.length ≤ xs.length) : Within ys xs := by
  have hperm := (hP.subperm_classes hxs hys h).perm_of_length_le (by simpa using hlength)
  intro e' he'
  obtain ⟨e, he, hclass⟩ := List.mem_map.mp (hperm.mem_iff.mpr
    (List.mem_map_of_mem (f := fun e => fun w : {w // P w} => eqv e.1 w.1) he'))
  have hkey := (hP.class_eq_iff (hxs.key e he) (hys.key e' he')).mp hclass
  obtain ⟨e'', he'', hkey', hvalue⟩ := h e he
  obtain rfl : e'' = e' := hP.entry_unique hys (hxs.key e he) he'' he' hkey' hkey
  exact ⟨e, he, hP.symm (hxs.key e he) (hys.key _ he') hkey,
    hP.symm (hxs.value e he) (hys.value _ he') hvalue⟩

/-- Two dicts are equal if each has for every entry of the other an equal one. -/
theorem eqv_dict_iff (hxs : DistinctEntries P xs) (hys : DistinctEntries P ys) :
    eqv (.dict xs) (.dict ys) = true ↔ Within xs ys ∧ Within ys xs := by
  rw [eqv, Bool.and_eq_true, beq_iff_eq, hP.eqvEntries_iff hxs.key hys]
  constructor
  · rintro ⟨hlength, h⟩
    exact ⟨h, hP.within_of_length_le hxs hys h hlength.ge⟩
  · rintro ⟨h, h'⟩
    have hle := (hP.subperm_classes hxs hys h).length_le
    have hge := (hP.subperm_classes hys hxs h').length_le
    rw [List.length_map, List.length_map] at hle hge
    exact ⟨Nat.le_antisymm hle hge, h⟩

theorem within_self (hxs : DistinctEntries P xs) : Within xs xs := fun e he =>
  ⟨e, he, hP.refl (hxs.key e he), hP.refl (hxs.value e he)⟩

theorem within_trans (hxs : DistinctEntries P xs) (hys : DistinctEntries P ys)
    (hzs : DistinctEntries P zs) (hxy : Within xs ys) (hyz : Within ys zs) : Within xs zs := by
  intro e he
  obtain ⟨e', he', hkey, hvalue⟩ := hxy e he
  obtain ⟨e'', he'', hkey', hvalue'⟩ := hyz e' he'
  exact ⟨e'', he'', hP.trans (hxs.key e he) (hys.key e' he') (hzs.key e'' he'') hkey hkey',
    hP.trans (hxs.value e he) (hys.value e' he') (hzs.value e'' he'') hvalue hvalue'⟩

end EquivalenceOn

/-! ## From the parts to the whole -/

/-- The constructible values below a size. -/
def Smaller (n : Nat) (v : Value) : Prop := Constructible v ∧ sizeOf v < n

section Smaller

variable {n : Nat} {items : List Value} {entries : List (Value × Value)}

theorem Smaller.of_list (h : Smaller (n + 1) (.list items)) : ∀ v ∈ items, Smaller n v := by
  intro v hv
  obtain ⟨hlist, hsize⟩ := h
  rw [list.sizeOf_spec] at hsize
  have hlt := List.sizeOf_lt_of_mem hv
  cases hlist with
  | list hitems => exact ⟨hitems v hv, by omega⟩

theorem Smaller.of_tuple (h : Smaller (n + 1) (.tuple items)) : ∀ v ∈ items, Smaller n v := by
  intro v hv
  obtain ⟨htuple, hsize⟩ := h
  rw [tuple.sizeOf_spec] at hsize
  have hlt := List.sizeOf_lt_of_mem hv
  cases htuple with
  | tuple hitems => exact ⟨hitems v hv, by omega⟩

theorem Smaller.of_dict (h : Smaller (n + 1) (.dict entries)) :
    DistinctEntries (Smaller n) entries := by
  obtain ⟨hdict, hsize⟩ := h
  rw [dict.sizeOf_spec] at hsize
  have hlt : ∀ e ∈ entries, sizeOf e.1 < n ∧ sizeOf e.2 < n := by
    rintro ⟨k, v⟩ he
    have hentry := List.sizeOf_lt_of_mem he
    rw [Prod.mk.sizeOf_spec] at hentry
    dsimp only
    omega
  cases hdict with
  | dict hdistinct hkeys hvalues =>
      exact ⟨fun e he => ⟨hkeys e he, (hlt e he).1⟩, fun e he => ⟨hvalues e he, (hlt e he).2⟩,
        hdistinct⟩

end Smaller

/-- Equal values are one and the same scalar, or sequences or dicts of one kind. -/
theorem eqv_cases {v w : Value} (h : eqv v w = true) : v = w ∨
    (∃ xs ys, v = .list xs ∧ w = .list ys ∧ eqvAll xs ys = true) ∨
    (∃ xs ys, v = .tuple xs ∧ w = .tuple ys ∧ eqvAll xs ys = true) ∨
    ∃ xs ys, v = .dict xs ∧ w = .dict ys := by
  cases v with
  | list xs =>
      cases w with
      | list ys => exact .inr (.inl ⟨xs, ys, rfl, rfl, h⟩)
      | _ => cases h
  | tuple xs =>
      cases w with
      | tuple ys => exact .inr (.inr (.inl ⟨xs, ys, rfl, rfl, h⟩))
      | _ => cases h
  | dict xs =>
      cases w with
      | dict ys => exact .inr (.inr (.inr ⟨xs, ys, rfl, rfl⟩))
      | _ => cases h
  | null => exact .inl (Flat.null.eq_of_eqv h)
  | bool b => exact .inl ((Flat.bool b).eq_of_eqv h)
  | int i => exact .inl ((Flat.int i).eq_of_eqv h)
  | str s => exact .inl ((Flat.str s).eq_of_eqv h)

/-- The laws go from the parts of values to the values. -/
theorem EquivalenceOn.succ {n : Nat} (hP : EquivalenceOn (Smaller n)) :
    EquivalenceOn (Smaller (n + 1)) where
  refl := by
    intro v hv
    cases v with
    | list xs => exact eqvAll_self fun x hx => hP.refl (hv.of_list x hx)
    | tuple xs => exact eqvAll_self fun x hx => hP.refl (hv.of_tuple x hx)
    | dict xs =>
        have hself := hP.within_self hv.of_dict
        exact (hP.eqv_dict_iff hv.of_dict hv.of_dict).mpr ⟨hself, hself⟩
    | null => exact Flat.null.eqv_self
    | bool b => exact (Flat.bool b).eqv_self
    | int i => exact (Flat.int i).eqv_self
    | str s => exact (Flat.str s).eqv_self
  symm := by
    intro v w hv hw h
    rcases eqv_cases h with rfl | ⟨xs, ys, rfl, rfl, hall⟩ | ⟨xs, ys, rfl, rfl, hall⟩ |
      ⟨xs, ys, rfl, rfl⟩
    · exact h
    · exact eqvAll_symm (fun x hx y hy => hP.symm (hv.of_list x hx) (hw.of_list y hy)) hall
    · exact eqvAll_symm (fun x hx y hy => hP.symm (hv.of_tuple x hx) (hw.of_tuple y hy)) hall
    · rw [hP.eqv_dict_iff hv.of_dict hw.of_dict] at h
      exact (hP.eqv_dict_iff hw.of_dict hv.of_dict).mpr h.symm
  trans := by
    intro u v w hu hv hw huv hvw
    rcases eqv_cases huv with rfl | ⟨xs, ys, rfl, rfl, hxy⟩ | ⟨xs, ys, rfl, rfl, hxy⟩ |
      ⟨xs, ys, rfl, rfl⟩
    · exact hvw
    · cases w with
      | list zs => exact eqvAll_trans (fun x hx y hy z hz =>
          hP.trans (hu.of_list x hx) (hv.of_list y hy) (hw.of_list z hz)) hxy hvw
      | _ => cases hvw
    · cases w with
      | tuple zs => exact eqvAll_trans (fun x hx y hy z hz =>
          hP.trans (hu.of_tuple x hx) (hv.of_tuple y hy) (hw.of_tuple z hz)) hxy hvw
      | _ => cases hvw
    · cases w with
      | dict zs =>
          rw [hP.eqv_dict_iff hu.of_dict hv.of_dict] at huv
          rw [hP.eqv_dict_iff hv.of_dict hw.of_dict] at hvw
          exact (hP.eqv_dict_iff hu.of_dict hw.of_dict).mpr
            ⟨hP.within_trans hu.of_dict hv.of_dict hw.of_dict huv.1 hvw.1,
              hP.within_trans hw.of_dict hv.of_dict hu.of_dict hvw.2 huv.2⟩
      | _ => cases hvw

theorem equivalenceOn_smaller (n : Nat) : EquivalenceOn (Smaller n) := by
  induction n with
  | zero => exact ⟨fun h => absurd h.2 (Nat.not_lt_zero _), fun h => absurd h.2 (Nat.not_lt_zero _),
      fun h => absurd h.2 (Nat.not_lt_zero _)⟩
  | succ n ih => exact ih.succ

/-- Equality is an equivalence among constructible values. -/
theorem equivalenceOn_constructible : EquivalenceOn Constructible where
  refl := fun hv => (equivalenceOn_smaller _).refl ⟨hv, Nat.lt_succ_self _⟩
  symm := by
    intro v w hv hw
    have hsize : sizeOf v < sizeOf v + sizeOf w + 1 ∧ sizeOf w < sizeOf v + sizeOf w + 1 := by omega
    exact (equivalenceOn_smaller _).symm ⟨hv, hsize.1⟩ ⟨hw, hsize.2⟩
  trans := by
    intro u v w hu hv hw
    have hsize : sizeOf u < sizeOf u + sizeOf v + sizeOf w + 1 ∧
        sizeOf v < sizeOf u + sizeOf v + sizeOf w + 1 ∧
        sizeOf w < sizeOf u + sizeOf v + sizeOf w + 1 := by omega
    exact (equivalenceOn_smaller _).trans ⟨hu, hsize.1⟩ ⟨hv, hsize.2.1⟩ ⟨hw, hsize.2.2⟩

theorem Constructible.distinctEntries {entries : List (Value × Value)}
    (h : Constructible (.dict entries)) : DistinctEntries Constructible entries := by
  cases h with
  | dict hdistinct hkeys hvalues => exact ⟨hkeys, hvalues, hdistinct⟩

theorem Flat.constructible {v : Value} (h : Flat v) : Constructible v := by
  induction h with
  | null => exact .null
  | bool b => exact .bool b
  | int i => exact .int i
  | str s => exact .str s
  | tuple _ ih => exact .tuple ih

/-- Well-keyed values can be constructed. -/
theorem WellKeyed.constructible {v : Value} (h : WellKeyed v) : Constructible v := by
  induction h with
  | null => exact .null
  | bool b => exact .bool b
  | int i => exact .int i
  | str s => exact .str s
  | list _ ih => exact .list ih
  | tuple _ ih => exact .tuple ih
  | dict hkeys _ ih =>
      exact .dict ((nodup_keys_iff hkeys.flat).mp hkeys.nodup)
        (fun e he => (hkeys.flat e he).constructible) ih

/-! ## Values that are built -/

/-- The values that are built of scalars, sequences and insertions into dicts. -/
inductive Built : Value → Prop
  | null : Built .null
  | bool (b : Bool) : Built (.bool b)
  | int (i : Int64) : Built (.int i)
  | str (s : String) : Built (.str s)
  | list {items : List Value} : (∀ v ∈ items, Built v) → Built (.list items)
  | tuple {items : List Value} : (∀ v ∈ items, Built v) → Built (.tuple items)
  | empty : Built Dict.empty.toValue
  | insert {d : Dict} {key value : Value} : Built d.toValue → Built key → Built value →
      Built (d.insert key value).toValue

theorem Built.constructible {v : Value} (h : Built v) : Constructible v := by
  induction h with
  | null => exact .null
  | bool b => exact .bool b
  | int i => exact .int i
  | str s => exact .str s
  | list _ ih => exact .list ih
  | tuple _ ih => exact .tuple ih
  | empty => exact .dict .nil nofun nofun
  | @insert d key value _ _ _ ihd ihkey ihvalue =>
      have hd := ihd.distinctEntries
      have hparts : ∀ e ∈ Dict.insertEntry key value d.entries,
          Constructible e.1 ∧ Constructible e.2 :=
        Dict.forall_mem_insertEntry (fun e he => ⟨hd.key e he, hd.value e he⟩) ihkey ihvalue
      exact .dict (Dict.pairwise_insertEntry hd.distinct key value) (fun e he => (hparts e he).1)
        fun e he => (hparts e he).2

/-- The entries of a dict are compared as lookups from outside would compare them, which have the
key and the value of the second dict on the left. -/
theorem eqvEntries_eq_lookups {xs : List (Value × Value)} {d : Dict}
    (hkeys : ∀ e ∈ xs, Constructible e.1) (hvalues : ∀ e ∈ xs, Constructible e.2)
    (hd : DistinctEntries Constructible d.entries) :
    eqvEntries xs d.entries = xs.all fun e => d.get? e.1 == some e.2 := by
  have hP := equivalenceOn_constructible
  have hswap : ∀ {v w}, Constructible v → Constructible w → eqv v w = eqv w v :=
    fun hv hw => Bool.eq_iff_iff.mpr ⟨hP.symm hv hw, hP.symm hw hv⟩
  induction xs with
  | nil => rfl
  | cons e xs ih =>
      obtain ⟨k, v⟩ := e
      obtain ⟨hk, hkeys⟩ := List.forall_mem_cons.mp hkeys
      obtain ⟨hv, hvalues⟩ := List.forall_mem_cons.mp hvalues
      have hfind : (d.entries.find? fun e => e.1 == k) = d.entries.find? fun e => eqv k e.1 :=
        List.find?_congr fun e he => hswap (hd.key e he) hk
      rw [eqvEntries, List.all_cons, ih hkeys hvalues, Dict.get?, hfind]
      refine congrArg (· && _) ?_
      cases hfound : d.entries.find? fun e => eqv k e.1 with
      | none => rfl
      | some e => exact hswap hv (hd.value e (List.mem_of_find?_eq_some hfound))

/-- Equality of values that are built is reflexive, symmetric and transitive. Two dicts are equal
exactly if each has, for every entry of the other, an entry with an equal key and an equal value;
that is what equally many entries and a lookup of every entry of the first dict in the second
decide. -/
theorem equality_equivalence {u v w : Value} (hu : Built u) (hv : Built v) (hw : Built w) :
    (u == u) = true ∧ ((u == v) = true → (v == u) = true) ∧
      ((u == v) = true → (v == w) = true → (u == w) = true) ∧
      ∀ c d : Dict, u = c.toValue → v = d.toValue →
        ((u == v) = true ↔
          (∀ e ∈ c.entries, ∃ e' ∈ d.entries, (e.1 == e'.1) = true ∧ (e.2 == e'.2) = true) ∧
            ∀ e ∈ d.entries, ∃ e' ∈ c.entries, (e.1 == e'.1) = true ∧ (e.2 == e'.2) = true) ∧
        (u == v) = (c.size == d.size && c.entries.all fun e => d.get? e.1 == some e.2) := by
  have hP := equivalenceOn_constructible
  have hu := hu.constructible
  have hv := hv.constructible
  refine ⟨hP.refl hu, hP.symm hu hv, hP.trans hu hv hw.constructible, ?_⟩
  rintro c d rfl rfl
  have hc := hu.distinctEntries
  have hd := hv.distinctEntries
  exact ⟨hP.eqv_dict_iff hc hd,
    congrArg (c.size == d.size && ·) (eqvEntries_eq_lookups hc.key hc.value hd)⟩

/-- A dict whose first key is a dict. -/
def keyedByDict : Dict :=
  (Dict.empty.insert ((Dict.empty.insert (.str "a") (.int 1)).insert (.str "b") .null).toValue
    (.list [])).insert (.tuple [.bool true]) (.str "x")

/-- The same keys and values, inserted in another order inside and outside. -/
def keyedByDictReordered : Dict :=
  (Dict.empty.insert (.tuple [.bool true]) (.str "x")).insert
    ((Dict.empty.insert (.str "b") .null).insert (.str "a") (.int 1)).toValue (.list [])

theorem equality_equivalence_reordered : Built keyedByDict.toValue ∧
    Built keyedByDictReordered.toValue ∧
      (keyedByDict.toValue == keyedByDictReordered.toValue) = true ∧
    (keyedByDictReordered.toValue == keyedByDict.toValue) = true ∧
    ∀ e ∈ keyedByDict.entries, ∃ e' ∈ keyedByDictReordered.entries,
      (e.1 == e'.1) = true ∧ (e.2 == e'.2) = true := by
  have hpair : Built (.tuple [.bool true]) := .tuple (List.forall_mem_singleton.mpr (.bool true))
  have hlist : Built (.list []) := .list (List.forall_mem_nil _)
  have hdict : Built keyedByDict.toValue :=
    .insert (.insert .empty (.insert (.insert .empty (.str "a") (.int 1)) (.str "b") .null) hlist)
      hpair (.str "x")
  have hreordered : Built keyedByDictReordered.toValue :=
    .insert (.insert .empty hpair (.str "x"))
      (.insert (.insert .empty (.str "b") .null) (.str "a") (.int 1)) hlist
  have hequal : (keyedByDict.toValue == keyedByDictReordered.toValue) = true := by decide
  obtain ⟨-, hsymm, -, hdicts⟩ := equality_equivalence hdict hreordered hdict
  exact ⟨hdict, hreordered, hequal, hsymm hequal, ((hdicts _ _ rfl rfl).1.mp hequal).1⟩

end Value

end DepsManifest
