import DepsManifest.Proofs.Value.Equality
import Mathlib.Data.Set.Card
/-! # Dicts as ordered maps

A dict that comes of a run of insertions is a finite map that remembers in which order its keys came
(`Dict.insertions_are_ordered_map`): under a key is what was last put under an equal one, and the
keys are those of the run without the ones that are equal to an earlier one. A key stays as it was
written first, also when an equal dict with its entries in another order is put in its place.

What one insertion does to the keys and to lookups is said once (`keys_insert`, `get?_insert`), and
runs follow by induction. That lookups and insertions meet takes keys among which equality is an
equivalence: the key that a dict has need be identical neither to the one inserted nor to the one
looked up.
-/
namespace DepsManifest

open Value (Built EquivalenceOn)

namespace Dict

/-! ## One insertion -/

theorem get?_cons (k v : Value) (entries : List (Value × Value)) (key : Value) :
    (⟨(k, v) :: entries⟩ : Dict).get? key =
      if k == key then some v else (⟨entries⟩ : Dict).get? key := by
  rw [get?, List.find?_cons]
  cases k == key <;> rfl

/-- An insertion that gives back the old value is a lookup and an insertion. -/
theorem exchange_eq (d : Dict) (key value : Value) :
    d.exchange key value = (d.get? key, d.insert key value) := by
  obtain ⟨entries⟩ := d
  induction entries with
  | nil => rfl
  | cons e entries ih =>
      obtain ⟨k, v⟩ := e
      rw [exchange, insert] at ih
      rw [exchange, insert, insertEntry, get?_cons, List.findIdx?_cons]
      cases hk : k == key with
      | true => rfl
      | false =>
          simp only [Bool.false_eq_true, if_false]
          -- Whether the key is found or not, the head is passed over on both sides.
          cases hfind : entries.findIdx? fun e => e.1 == key <;>
            · rw [hfind] at ih
              obtain ⟨hget, hentries⟩ := Prod.mk.inj ih
              rw [← hget, ← mk.inj hentries]
              rfl

/-- A string key is looked up by its text. -/
theorem getString?_eq (d : Dict) (name : String) : d.getString? name = d.get? (.str name) := by
  have hkey : ∀ k : Value, (k.asString? == some name) = (k == .str name) := by
    intro k
    cases k with
    | str s => exact Option.some_beq_some
    | _ => rfl
  rw [getString?, get?]
  simp only [hkey]

theorem contains_cons (e : Value × Value) (entries : List (Value × Value)) (key : Value) :
    (⟨e :: entries⟩ : Dict).contains key = (e.1 == key || (⟨entries⟩ : Dict).contains key) := by
  rw [contains, get?_cons]
  cases e.1 == key <;> rfl

/-- A new key goes to the end, and a key that is there stays where it is. -/
theorem keys_insert (d : Dict) (key value : Value) :
    (d.insert key value).keys = if d.contains key then d.keys else d.keys ++ [key] := by
  obtain ⟨entries⟩ := d
  induction entries with
  | nil => rfl
  | cons e entries ih =>
      obtain ⟨k, v⟩ := e
      rw [insert, insertEntry, contains_cons]
      cases k == key with
      | true => rfl
      | false =>
          rw [Bool.false_or]
          refine (congrArg (List.cons k) ih).trans ?_
          cases (⟨entries⟩ : Dict).contains key <;> rfl

theorem forall_mem_keys_insert {P : Value → Prop} {d : Dict} (hd : ∀ k ∈ d.keys, P k) {key : Value}
    (hkey : P key) (value : Value) : ∀ k ∈ (d.insert key value).keys, P k := by
  rw [keys_insert]
  split
  · exact hd
  · exact List.forall_mem_append.mpr ⟨hd, List.forall_mem_singleton.mpr hkey⟩

/-! ## Runs of insertions -/

theorem ofList_append_singleton (inserts : List (Value × Value)) (key value : Value) :
    ofList (inserts ++ [(key, value)]) = (ofList inserts).insert key value :=
  List.foldl_append

theorem forall_mem_keys_ofList {P : Value → Prop} {inserts : List (Value × Value)}
    (h : ∀ e ∈ inserts, P e.1) : ∀ k ∈ (ofList inserts).keys, P k := by
  induction inserts using List.reverseRecOn with
  | nil => exact List.forall_mem_nil _
  | append_singleton inserts e ih =>
      obtain ⟨hbefore, hlast⟩ := List.forall_mem_append.mp h
      rw [ofList_append_singleton]
      exact forall_mem_keys_insert (ih hbefore) (hlast e List.mem_cons_self) e.2

/-- No key of a run is equal to a later one. -/
theorem pairwise_ofList (inserts : List (Value × Value)) :
    (ofList inserts).entries.Pairwise fun a b => (a.1 == b.1) = false := by
  induction inserts using List.reverseRecOn with
  | nil => exact .nil
  | append_singleton inserts e ih =>
      rw [ofList_append_singleton]
      exact pairwise_insertEntry ih e.1 e.2

/-- A dict without equal keys is the run of its entries. -/
theorem ofList_entries {entries : List (Value × Value)}
    (h : entries.Pairwise fun a b => (a.1 == b.1) = false) : ofList entries = ⟨entries⟩ := by
  induction entries using List.reverseRecOn with
  | nil => rfl
  | append_singleton entries e ih =>
      obtain ⟨hbefore, -, hnew⟩ := List.pairwise_append.mp h
      rw [ofList_append_singleton, ih hbefore, insert, Value.insertEntry_of_forall_ne]
      exact fun e' he' => hnew e' he' e List.mem_cons_self

/-! ## Keys among which equality is an equivalence -/

section Equivalence

variable {P : Value → Prop} (hP : EquivalenceOn P)

include hP

/-- An insertion changes what a dict gives under keys equal to its own, and nothing else. -/
theorem get?_insert {d : Dict} (hd : ∀ k ∈ d.keys, P k) {key k : Value} (hkey : P key) (hk : P k)
    (value : Value) :
    (d.insert key value).get? k = if key == k then some value else d.get? k := by
  obtain ⟨entries⟩ := d
  induction entries with
  | nil => exact get?_cons key value [] k
  | cons e entries ih =>
      obtain ⟨k', v⟩ := e
      obtain ⟨hfirst, hrest⟩ := List.forall_mem_cons.mp hd
      rw [insert, insertEntry, get?_cons]
      by_cases hsame : (k' == key) = true
      · have hboth : (k' == k) = (key == k) := Bool.eq_iff_iff.mpr
          ⟨hP.trans hkey hfirst hk (hP.symm hfirst hkey hsame), hP.trans hfirst hkey hk hsame⟩
        rw [if_pos hsame, get?_cons, hboth]
        split <;> rfl
      · rw [if_neg hsame, get?_cons]
        by_cases hhere : (k' == k) = true
        · have hapart : ¬ (key == k) = true := fun h =>
            hsame (hP.trans hfirst hk hkey hhere (hP.symm hkey hk h))
          rw [if_pos hhere, if_neg hapart, if_pos hhere]
        · rw [if_neg hhere, if_neg hhere]
          exact ih hrest

/-- Equal keys are the same to a dict. -/
theorem get?_congr {d : Dict} (hd : ∀ k ∈ d.keys, P k) {k k' : Value} (hk : P k) (hk' : P k')
    (h : (k == k') = true) : d.get? k = d.get? k' := by
  rw [get?, get?]
  refine congrArg (Option.map _) (List.find?_congr fun e he => ?_)
  have he : P e.1 := hd e.1 (List.mem_map_of_mem he)
  exact Bool.eq_iff_iff.mpr ⟨fun hek => hP.trans he hk hk' hek h,
    fun hek => hP.trans he hk' hk hek (hP.symm hk hk' h)⟩

theorem contains_insert {d : Dict} (hd : ∀ k ∈ d.keys, P k) {key k : Value} (hkey : P key)
    (hk : P k) (value : Value) : (d.insert key value).contains k = (key == k || d.contains k) := by
  rw [contains, get?_insert hP hd hkey hk]
  cases key == k <;> rfl

/-- Under a key is what was last put under an equal one. -/
theorem get?_ofList {inserts : List (Value × Value)} (h : ∀ e ∈ inserts, P e.1) {k : Value}
    (hk : P k) : (ofList inserts).get? k = (inserts.findRev? fun e => e.1 == k).map (·.2) := by
  induction inserts using List.reverseRecOn with
  | nil => rfl
  | append_singleton inserts e ih =>
      obtain ⟨hbefore, hlast⟩ := List.forall_mem_append.mp h
      have hkey : P e.1 := hlast e List.mem_cons_self
      rw [ofList_append_singleton, get?_insert hP (forall_mem_keys_ofList hbefore) hkey hk,
        ih hbefore,
        List.findRev?_eq_find?_reverse, List.findRev?_eq_find?_reverse, List.reverse_append,
        List.reverse_singleton, List.singleton_append, List.find?_cons]
      cases e.1 == k <;> rfl

/-- The keys that are new after an insertion are the new ones that are not equal to its key. -/
theorem filter_not_contains_insert {d : Dict} (hd : ∀ k ∈ d.keys, P k) {key : Value} (hkey : P key)
    (value : Value) {keys : List Value} (hkeys : ∀ k ∈ keys, P k) :
    (keys.filter fun k => !(d.insert key value).contains k) =
      (keys.filter fun k => !d.contains k).filter fun k => !k == key := by
  rw [List.filter_filter]
  refine List.filter_congr fun k hk => ?_
  have hswap : (key == k) = (k == key) :=
    Bool.eq_iff_iff.mpr ⟨hP.symm hkey (hkeys k hk), hP.symm (hkeys k hk) hkey⟩
  rw [contains_insert hP hd hkey (hkeys k hk), hswap, Bool.not_or]

/-- No new key is equal to one that is there. -/
theorem filter_not_contains_of_contains {d : Dict} (hd : ∀ k ∈ d.keys, P k) {key : Value}
    (hkey : P key) (hhas : d.contains key = true) {keys : List Value} (hkeys : ∀ k ∈ keys, P k) :
    ((keys.filter fun k => !d.contains k).filter fun k => !k == key) =
      keys.filter fun k => !d.contains k := by
  refine List.filter_eq_self.mpr fun k hk => ?_
  obtain ⟨hmem, hnew⟩ := List.mem_filter.mp hk
  rw [Bool.not_eq_true', Bool.eq_false_iff]
  intro hequal
  rw [contains, get?_congr hP hd (hkeys k hmem) hkey hequal, ← contains, hhas] at hnew
  cases hnew

/-- A run adds those of its keys that the dict does not have, each where it comes first. -/
theorem keys_foldl_insert {inserts : List (Value × Value)} (h : ∀ e ∈ inserts, P e.1) {d : Dict}
    (hd : ∀ k ∈ d.keys, P k) :
    (inserts.foldl (fun d e => d.insert e.1 e.2) d).keys =
      d.keys ++ ((inserts.map (·.1)).filter fun k => !d.contains k).eraseDups := by
  induction inserts generalizing d with
  | nil => exact (List.append_nil d.keys).symm
  | cons e inserts ih =>
      obtain ⟨hkey, hrest⟩ := List.forall_mem_cons.mp h
      have hkeys : ∀ k ∈ inserts.map (·.1), P k := List.forall_mem_map.mpr hrest
      rw [List.foldl_cons, ih hrest (forall_mem_keys_insert hd hkey e.2),
        filter_not_contains_insert hP hd hkey e.2 hkeys, keys_insert, List.map_cons,
        List.filter_cons]
      cases hhas : d.contains e.1 with
      | true =>
          rw [filter_not_contains_of_contains hP hd hkey hhas hkeys]
          rfl
      | false =>
          rw [if_neg Bool.false_ne_true, Bool.not_false, if_pos rfl, List.eraseDups_cons,
            List.append_assoc]
          rfl

/-- The keys of a run are those that are equal to no earlier one, in their order. -/
theorem keys_ofList {inserts : List (Value × Value)} (h : ∀ e ∈ inserts, P e.1) :
    (ofList inserts).keys = (inserts.map (·.1)).eraseDups := by
  have hall : (inserts.map (·.1)).filter (fun k => !empty.contains k) = inserts.map (·.1) :=
    List.filter_eq_self.mpr fun _ _ => rfl
  refine (keys_foldl_insert hP h (d := empty) (List.forall_mem_nil _)).trans ?_
  rw [hall]
  rfl

/-- Every key of a run is equal to a key of the dict. -/
theorem exists_mem_keys_ofList {inserts : List (Value × Value)} (h : ∀ e ∈ inserts, P e.1) :
    ∀ e ∈ inserts, ∃ k ∈ (ofList inserts).keys, (k == e.1) = true := by
  intro e he
  have hfound : (inserts.findRev? fun e' => e'.1 == e.1).isSome = true := by
    rw [List.findRev?_eq_find?_reverse, List.find?_isSome]
    exact ⟨e, List.mem_reverse.mpr he, hP.refl (h e he)⟩
  obtain ⟨last, hlast⟩ := Option.isSome_iff_exists.mp hfound
  have hget := get?_ofList hP h (h e he)
  rw [hlast, Option.map_some] at hget
  obtain ⟨e', he', -⟩ := Option.map_eq_some_iff.mp hget
  have hequal := List.find?_some he'
  exact ⟨e'.1, List.mem_map_of_mem (List.mem_of_find?_eq_some he'), hequal⟩

/-- A dict gives under each of its keys what stands beside it. -/
theorem get?_of_mem {d : Dict} (hd : ∀ k ∈ d.keys, P k)
    (hdistinct : d.entries.Pairwise fun a b => (a.1 == b.1) = false) :
    ∀ e ∈ d.entries, d.get? e.1 = some e.2 := by
  obtain ⟨entries⟩ := d
  induction entries with
  | nil => exact List.forall_mem_nil _
  | cons e entries ih =>
      obtain ⟨hfirst, hrest⟩ := List.forall_mem_cons.mp hd
      obtain ⟨hapart, hlater⟩ := List.pairwise_cons.mp hdistinct
      refine List.forall_mem_cons.mpr ⟨?_, fun e' he' => ?_⟩
      · rw [get?_cons]
        exact if_pos (hP.refl hfirst)
      · rw [get?_cons, if_neg (Bool.eq_false_iff.mp (hapart e' he'))]
        exact ih hrest hlater e' he'

end Equivalence

end Dict

/-! ## All of it -/

/-- The values that can be built and are equal to a value. -/
def Value.equalTo (k : Value) : Set Value := {w | Built w ∧ (k == w) = true}

theorem Value.equivalenceOn_built : EquivalenceOn Built where
  refl := fun hv => equivalenceOn_constructible.refl hv.constructible
  symm := fun hv hw => equivalenceOn_constructible.symm hv.constructible hw.constructible
  trans := fun hu hv hw =>
    equivalenceOn_constructible.trans hu.constructible hv.constructible hw.constructible

theorem Value.equalTo_eq_iff {k k' : Value} (hk : Built k) (hk' : Built k') :
    k.equalTo = k'.equalTo ↔ (k == k') = true := by
  have hP := equivalenceOn_built
  constructor
  · intro h
    have hmem : k' ∈ k.equalTo := h ▸ ⟨hk', hP.refl hk'⟩
    exact hmem.2
  · intro h
    refine Set.ext fun w => and_congr_right fun hw => ?_
    exact ⟨hP.trans hk' hk hw (hP.symm hk hk' h), hP.trans hk hk' hw h⟩

namespace Dict

open Value (equivalenceOn_built)

/-- A run leaves as many entries as there are keys that are not equal to one another. -/
theorem size_ofList {inserts : List (Value × Value)} (h : ∀ e ∈ inserts, Built e.1) :
    (ofList inserts).size = (Value.equalTo '' {k | ∃ e ∈ inserts, e.1 = k}).ncard := by
  classical
  have hbuilt := forall_mem_keys_ofList h
  have hnodup : ((ofList inserts).keys.map Value.equalTo).Nodup := by
    refine List.pairwise_map.mpr (List.pairwise_map.mpr ?_)
    refine (pairwise_ofList inserts).imp_of_mem fun {a b} ha hb hapart hsame => ?_
    have hequal := (Value.equalTo_eq_iff (hbuilt _ (List.mem_map_of_mem ha))
      (hbuilt _ (List.mem_map_of_mem hb))).mp hsame
    exact Bool.eq_false_iff.mp hapart hequal
  have hclasses : Value.equalTo '' {k | ∃ e ∈ inserts, e.1 = k} =
      ((ofList inserts).keys.map Value.equalTo).toFinset := by
    refine Set.ext fun c => ?_
    rw [List.coe_toFinset, Set.mem_ofPred_eq, List.mem_map]
    constructor
    · rintro ⟨_, ⟨e, he, rfl⟩, rfl⟩
      obtain ⟨k, hk, hequal⟩ := exists_mem_keys_ofList equivalenceOn_built h e he
      exact ⟨k, hk, (Value.equalTo_eq_iff (hbuilt k hk) (h e he)).mpr hequal⟩
    · rintro ⟨k, hk, rfl⟩
      have hinserted : ∃ e ∈ inserts, e.1 = k :=
        forall_mem_keys_ofList (P := fun k => ∃ e ∈ inserts, e.1 = k)
          (fun e he => ⟨e, he, rfl⟩) k hk
      exact ⟨k, hinserted, rfl⟩
  rw [hclasses, Set.ncard_coe_finset, List.toFinset_card_of_nodup hnodup, List.length_map]
  exact (List.length_map _).symm

/-- What a run of insertions of built keys into the empty dict leaves is an ordered map. No two keys
are equal; under a key is the value of the last insertion whose key is equal, also when a string key
is looked up by its text; each insertion gives back what was under its key till then; there are as
many entries as keys that are not equal to one another; the keys stand as they were first inserted,
each with the value that a lookup gives; and the entries inserted anew are the same dict. -/
theorem insertions_are_ordered_map {inserts : List (Value × Value)} (h : ∀ e ∈ inserts, Built e.1) :
    (ofList inserts).keys.Pairwise (fun a b => (a == b) = false ∧ (b == a) = false) ∧
      (∀ k, Built k →
        (ofList inserts).get? k = (inserts.findRev? fun e => e.1 == k).map (·.2)) ∧
      (∀ name, (ofList inserts).getString? name = (ofList inserts).get? (.str name)) ∧
      (∀ before k v after, inserts = before ++ (k, v) :: after →
        (ofList before).exchange k v =
          ((before.findRev? fun e => e.1 == k).map (·.2), ofList (before ++ [(k, v)]))) ∧
      (ofList inserts).size = (Value.equalTo '' {k | ∃ e ∈ inserts, e.1 = k}).ncard ∧
      (ofList inserts).keys = (inserts.map (·.1)).eraseDups ∧
      (∀ e ∈ (ofList inserts).entries, (ofList inserts).get? e.1 = some e.2) ∧
      ofList (ofList inserts).entries = ofList inserts := by
  have hP := equivalenceOn_built
  have hbuilt := forall_mem_keys_ofList h
  have hdistinct := pairwise_ofList inserts
  refine ⟨?_, fun k hk => get?_ofList hP h hk, getString?_eq _, ?_, size_ofList h, keys_ofList hP h,
    get?_of_mem hP hbuilt hdistinct, ofList_entries hdistinct⟩
  · refine List.pairwise_map.mpr (hdistinct.imp_of_mem fun {a b} ha hb hapart => ⟨hapart, ?_⟩)
    rw [Bool.eq_false_iff] at hapart ⊢
    exact fun hequal => hapart (hP.symm (hbuilt _ (List.mem_map_of_mem hb))
      (hbuilt _ (List.mem_map_of_mem ha)) hequal)
  · rintro before k v after rfl
    obtain ⟨hbefore, hlater⟩ := List.forall_mem_append.mp h
    rw [exchange_eq, ofList_append_singleton, get?_ofList hP hbefore (hlater _ List.mem_cons_self)]

def oneOrder : Value := ((empty.insert (.str "a") (.int 1)).insert (.str "b") .null).toValue

/-- The same dict with its entries in another order. -/
def otherOrder : Value := ((empty.insert (.str "b") .null).insert (.str "a") (.int 1)).toValue

/-- A run in which both keys are written twice, one of them in another order. -/
def rewritten : List (Value × Value) :=
  [(oneOrder, .str "x"), (.str "k", .int 1), (otherOrder, .str "y"), (.str "k", .list [])]

theorem insertions_are_ordered_map_rewritten : (∀ e ∈ rewritten, Built e.1) ∧
    (ofList rewritten).keys = [oneOrder, .str "k"] ∧
    (ofList rewritten).get? oneOrder = some (.str "y") ∧
    ((ofList (rewritten.take 2)).exchange otherOrder (.str "y")).1 = some (.str "x") ∧
    (Value.equalTo '' {k | ∃ e ∈ rewritten, e.1 = k}).ncard = 2 := by
  have hone : Built oneOrder := .insert (.insert .empty (.str "a") (.int 1)) (.str "b") .null
  have hother : Built otherOrder := .insert (.insert .empty (.str "b") .null) (.str "a") (.int 1)
  have hbuilt : ∀ e ∈ rewritten, Built e.1 :=
    List.forall_mem_cons.mpr ⟨hone, List.forall_mem_cons.mpr
    ⟨.str "k", List.forall_mem_cons.mpr ⟨hother, List.forall_mem_singleton.mpr (.str "k")⟩⟩⟩
  obtain ⟨-, hget, -, hold, hsize, hkeys, -⟩ := insertions_are_ordered_map hbuilt
  have hreplaced := congrArg Prod.fst (hold (rewritten.take 2) otherOrder (.str "y") _ rfl)
  exact ⟨hbuilt, hkeys.trans rfl, (hget oneOrder hone).trans rfl, hreplaced.trans rfl, hsize.symm⟩

end Dict

end DepsManifest
