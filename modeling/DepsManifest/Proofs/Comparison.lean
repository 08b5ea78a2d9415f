import DepsManifest.Comparison
import DepsManifest.Proofs.Except
import DepsManifest.Proofs.Value.Keys
import DepsManifest.Proofs.Value.Unambiguous
/-! # What the comparison decides

The comparison of an expected value with an actual one walks both and stops at the first difference.
What it decides is a relation between values, `Value.Matches`:

  * dicts match key by key, in whatever order the keys stand;
  * sequences match element by element, and an expected list also stands for an actual tuple;
  * all else matches by equality.

On well-keyed values there is no difference exactly if they match, whatever the path that the
comparison starts from (`Value.compare_eq_ok_iff`). The laws of the relation are then laws of the
program: equal values match, every value matches itself, and matches compose
(`Value.comparison_decided_by_matching`). It is no equivalence: a tuple does not match a list.

## The way of the proof

By induction over the expected value, one lemma for each pair of kinds. Pairs that are not compared
by their parts (`comparedByParts`) are compared for equality, and for them the two notions are one.
Of the others, sequences go by `compareSequences_eq_ok_iff` and dicts by `compareDicts_eq_ok_iff`.

For dicts the program compares the keys as lists, each list in the order of the printed forms. The
lists are equal exactly if the dicts have the same keys (`eqvAll_sortedKeys_iff`). This is where
keys have to be well made: they are told apart by their printed forms, so distinct keys have one
order only.
-/
namespace DepsManifest

namespace Value

/-- Whether two values are compared part by part. -/
def comparedByParts : Value → Value → Bool
  | .dict _, .dict _ => true
  | .list _, .list _ => true
  | .list _, .tuple _ => true
  | .tuple _, .tuple _ => true
  | _, _ => false

/-- An actual value stands for an expected one. -/
inductive Matches : Value → Value → Prop
  | dict {expected actual : List (Value × Value)} :
      (∀ k, k ∈ expected.map (·.1) ↔ k ∈ actual.map (·.1)) →
      (∀ k e a, (k, e) ∈ expected → (k, a) ∈ actual → Matches e a) →
      Matches (.dict expected) (.dict actual)
  | list {expected actual : List Value} : expected.length = actual.length →
      (∀ (i : Nat) e a, expected[i]? = some e → actual[i]? = some a → Matches e a) →
      Matches (.list expected) (.list actual)
  | listTuple {expected actual : List Value} : expected.length = actual.length →
      (∀ (i : Nat) e a, expected[i]? = some e → actual[i]? = some a → Matches e a) →
      Matches (.list expected) (.tuple actual)
  | tuple {expected actual : List Value} : expected.length = actual.length →
      (∀ (i : Nat) e a, expected[i]? = some e → actual[i]? = some a → Matches e a) →
      Matches (.tuple expected) (.tuple actual)
  | equal {expected actual : Value} : comparedByParts expected actual = false →
      (expected == actual) = true → Matches expected actual

/-! ## Keys in the order of their printed forms -/

section Keys

open Difference (sortedKeys)

variable {xs ys : List (Value × Value)}

theorem mem_sortedKeys {k : Value} : k ∈ sortedKeys xs ↔ k ∈ xs.map (·.1) := List.mem_mergeSort

theorem pairwise_sortedKeys (xs : List (Value × Value)) :
    (sortedKeys xs).Pairwise fun a b => a.repr ≤ b.repr := by
  have htrans : ∀ a b c : Value, decide (a.repr ≤ b.repr) = true →
      decide (b.repr ≤ c.repr) = true → decide (a.repr ≤ c.repr) = true := by
    intro a b c hab hbc
    exact decide_eq_true (String.le_trans (of_decide_eq_true hab) (of_decide_eq_true hbc))
  have htotal : ∀ a b : Value, (decide (a.repr ≤ b.repr) || decide (b.repr ≤ a.repr)) = true := by
    intro a b
    simpa using String.le_total a.repr b.repr
  exact (List.pairwise_mergeSort htrans htotal _).imp fun h => of_decide_eq_true h

/-- Two dicts with the same keys have them in one order. -/
theorem sortedKeys_eq (hxs : ProperKeys xs) (hys : ProperKeys ys)
    (h : ∀ k, k ∈ xs.map (·.1) ↔ k ∈ ys.map (·.1)) : sortedKeys xs = sortedKeys ys := by
  have hkeys : (xs.map (·.1)).Perm (ys.map (·.1)) :=
    (List.perm_ext_iff_of_nodup hxs.nodup hys.nodup).mpr h
  have hperm : (sortedKeys xs).Perm (sortedKeys ys) :=
    (List.mergeSort_perm _ _).trans (hkeys.trans (List.mergeSort_perm _ _).symm)
  exact List.Perm.eq_of_pairwise (fun _ _ _ _ hab hba => repr_inj (String.le_antisymm hab hba))
    (pairwise_sortedKeys xs) (pairwise_sortedKeys ys) hperm

theorem eqvAll_sortedKeys_iff (hxs : ProperKeys xs) (hys : ProperKeys ys) :
    eqvAll (sortedKeys xs) (sortedKeys ys) = true ↔
      ∀ k, k ∈ xs.map (·.1) ↔ k ∈ ys.map (·.1) := by
  have hflat : ∀ k ∈ sortedKeys xs, Flat k := fun k hk => hxs.flat_of_mem_map (mem_sortedKeys.mp hk)
  constructor
  · intro h k
    have heq : sortedKeys xs = sortedKeys ys :=
      eq_of_eqvAll (fun x hx y => (hflat x hx).eq_of_eqv) h
    rw [← mem_sortedKeys, heq, mem_sortedKeys]
  · intro h
    rw [← sortedKeys_eq hxs hys h]
    exact eqvAll_self fun k hk => (hflat k hk).eqv_self

theorem ofKeys?_eq_none_iff (path : String) (hxs : ProperKeys xs) (hys : ProperKeys ys) :
    Difference.ofKeys? path xs ys = none ↔ ∀ k, k ∈ xs.map (·.1) ↔ k ∈ ys.map (·.1) := by
  rw [← eqvAll_sortedKeys_iff hxs hys, Difference.ofKeys?]
  cases h : eqvAll (sortedKeys xs) (sortedKeys ys) with
  | false => simp
  | true => simp

end Keys

/-! ## Kinds of pairs -/

theorem matches_list_iff {xs ys : List Value} :
    Matches (.list xs) (.list ys) ↔ xs.length = ys.length ∧
      ∀ (i : Nat) e a, xs[i]? = some e → ys[i]? = some a → Matches e a := by
  constructor
  · intro h
    cases h with
    | list hlength hitems => exact ⟨hlength, hitems⟩
    | equal hparts _ => cases hparts
  · rintro ⟨hlength, hitems⟩
    exact .list hlength hitems

theorem matches_listTuple_iff {xs ys : List Value} :
    Matches (.list xs) (.tuple ys) ↔ xs.length = ys.length ∧
      ∀ (i : Nat) e a, xs[i]? = some e → ys[i]? = some a → Matches e a := by
  constructor
  · intro h
    cases h with
    | listTuple hlength hitems => exact ⟨hlength, hitems⟩
    | equal hparts _ => cases hparts
  · rintro ⟨hlength, hitems⟩
    exact .listTuple hlength hitems

theorem matches_tuple_iff {xs ys : List Value} :
    Matches (.tuple xs) (.tuple ys) ↔ xs.length = ys.length ∧
      ∀ (i : Nat) e a, xs[i]? = some e → ys[i]? = some a → Matches e a := by
  constructor
  · intro h
    cases h with
    | tuple hlength hitems => exact ⟨hlength, hitems⟩
    | equal hparts _ => cases hparts
  · rintro ⟨hlength, hitems⟩
    exact .tuple hlength hitems

theorem matches_dict_iff {xs ys : List (Value × Value)} :
    Matches (.dict xs) (.dict ys) ↔ (∀ k, k ∈ xs.map (·.1) ↔ k ∈ ys.map (·.1)) ∧
      ∀ k e a, (k, e) ∈ xs → (k, a) ∈ ys → Matches e a := by
  constructor
  · intro h
    cases h with
    | dict hkeys hvalues => exact ⟨hkeys, hvalues⟩
    | equal hparts _ => cases hparts
  · rintro ⟨hkeys, hvalues⟩
    exact .dict hkeys hvalues

theorem matches_iff_beq {expected actual : Value}
    (h : comparedByParts expected actual = false) :
    Matches expected actual ↔ (expected == actual) = true := by
  constructor
  · intro hmatches
    cases hmatches with
    | equal _ hequal => exact hequal
    | _ => cases h
  · exact .equal h

theorem eq_of_beq_of_not_comparedByParts {v w : Value} (hparts : comparedByParts v w = false)
    (h : (v == w) = true) : v = w := by
  cases v with
  | null => exact Flat.null.eq_of_eqv h
  | bool b => exact (Flat.bool b).eq_of_eqv h
  | int i => exact (Flat.int i).eq_of_eqv h
  | str s => exact (Flat.str s).eq_of_eqv h
  | list xs =>
      cases w with
      | list ys => cases hparts
      | _ => cases h
  | tuple xs =>
      cases w with
      | tuple ys => cases hparts
      | _ => cases h
  | dict xs =>
      cases w with
      | dict ys => cases hparts
      | _ => cases h

/-! ## No difference -/

theorem compare_eq_of_not_comparedByParts {path : String} {expected actual : Value}
    (h : comparedByParts expected actual = false) : compare path expected actual =
      if expected == actual then .ok () else .error ⟨path, expected, actual⟩ := by
  rw [compare]
  all_goals
    rintro _ _ rfl rfl
    cases h

theorem compare_eq_ok_iff_beq {path : String} {expected actual : Value}
    (h : comparedByParts expected actual = false) :
    compare path expected actual = .ok () ↔ (expected == actual) = true := by
  rw [compare_eq_of_not_comparedByParts h]
  cases expected == actual with
  | false => exact ⟨fun h => (nomatch h), fun h => (nomatch h)⟩
  | true => exact ⟨fun _ => rfl, fun _ => rfl⟩

section Sequences

variable {path : String} {xs ys : List Value}

theorem compareFrom_eq_ok_iff {index : Nat}
    (ih : ∀ x ∈ xs, ∀ y ∈ ys, ∀ path, compare path x y = .ok () ↔ Matches x y) :
    compareFrom path index xs ys = .ok () ↔
      ∀ (i : Nat) e a, xs[i]? = some e → ys[i]? = some a → Matches e a := by
  induction xs generalizing ys index with
  | nil =>
      rw [compareFrom]
      · exact ⟨fun _ _ _ _ h => (nomatch h), fun _ => rfl⟩
      · exact nofun
  | cons x xs ihxs =>
      cases ys with
      | nil =>
          rw [compareFrom]
          · exact ⟨fun _ _ _ _ _ h => (nomatch h), fun _ => rfl⟩
          · exact nofun
      | cons y ys =>
          rw [compareFrom, bind_eq_ok, forall_getElem?_cons,
            ← ih x List.mem_cons_self y List.mem_cons_self,
            ← ihxs fun x' hx' y' hy' => ih x' (List.mem_cons_of_mem x hx') y'
              (List.mem_cons_of_mem y hy')]
          constructor
          · rintro ⟨_, hfirst, hrest⟩
            exact ⟨hfirst, hrest⟩
          · rintro ⟨hfirst, hrest⟩
            exact ⟨(), hfirst, hrest⟩

/-- Two sequences have no difference if they are equally long and match place by place. -/
theorem compareSequences_eq_ok_iff
    (ih : ∀ x ∈ xs, ∀ y ∈ ys, ∀ path, compare path x y = .ok () ↔ Matches x y) :
    (match Difference.ofLengths? path xs ys with
      | some difference => Except.error difference
      | none => compareFrom path 0 xs ys) = .ok () ↔
      xs.length = ys.length ∧
        ∀ (i : Nat) e a, xs[i]? = some e → ys[i]? = some a → Matches e a := by
  rw [Difference.ofLengths?]
  by_cases hlength : xs.length = ys.length
  · rw [if_pos hlength]
    exact (compareFrom_eq_ok_iff ih).trans ⟨fun h => ⟨hlength, h⟩, fun h => h.2⟩
  · rw [if_neg hlength]
    exact ⟨fun h => (nomatch h), fun h => absurd h.1 hlength⟩

end Sequences

theorem compareEntries_eq_ok_iff {path : String} {xs : List (Value × Value)} {actual : Dict} :
    compareEntries path xs actual = .ok () ↔ ∀ e ∈ xs, ∀ a, actual.get? e.1 = some a →
      compare (Difference.keyPath path e.1) e.2 a = .ok () := by
  induction xs with
  | nil => exact ⟨fun _ => nofun, fun _ => rfl⟩
  | cons x xs ih =>
      obtain ⟨k, e⟩ := x
      rw [compareEntries, List.forall_mem_cons, ← ih]
      cases hget : actual.get? k with
      | none => exact ⟨fun h => ⟨nofun, h⟩, fun h => h.2⟩
      | some a =>
          show (_ >>= _) = _ ↔ _
          rw [bind_eq_ok]
          constructor
          · rintro ⟨_, hfirst, hrest⟩
            refine ⟨?_, hrest⟩
            rintro _ ⟨⟩
            exact hfirst
          · rintro ⟨hfirst, hrest⟩
            exact ⟨(), hfirst a rfl, hrest⟩

theorem compareDicts_eq_ok_iff {path : String} {xs ys : List (Value × Value)}
    (hxs : ProperKeys xs) (hys : ProperKeys ys)
    (ih : ∀ x ∈ xs, ∀ y ∈ ys, ∀ path, compare path x.2 y.2 = .ok () ↔ Matches x.2 y.2) :
    compare path (.dict xs) (.dict ys) = .ok () ↔ Matches (.dict xs) (.dict ys) := by
  rw [compare, matches_dict_iff, ← ofKeys?_eq_none_iff path hxs hys]
  cases hdifference : Difference.ofKeys? path xs ys with
  | some difference => exact ⟨fun h => (nomatch h), fun h => (nomatch h.1)⟩
  | none =>
      refine compareEntries_eq_ok_iff.trans ⟨fun h => ⟨rfl, fun k e a he ha => ?_⟩, ?_⟩
      · exact (ih _ he _ ha _).mp (h (k, e) he a (hys.get?_eq_some_iff.mpr ha))
      · rintro ⟨-, hvalues⟩ e he a ha
        have hmem := hys.get?_eq_some_iff.mp ha
        exact (ih _ he _ hmem _).mpr (hvalues e.1 e.2 a he hmem)

/-- The comparison of well-keyed values finds no difference exactly if they match. -/
theorem compare_eq_ok_iff {expected : Value} (hexpected : WellKeyed expected) {actual : Value}
    (hactual : WellKeyed actual) (path : String) :
    compare path expected actual = .ok () ↔ Matches expected actual := by
  have hequal {e a : Value} (h : comparedByParts e a = false) (path : String) :
      compare path e a = .ok () ↔ Matches e a :=
    (compare_eq_ok_iff_beq h).trans (matches_iff_beq h).symm
  induction hexpected generalizing actual path with
  | null => exact hequal rfl path
  | bool b => exact hequal rfl path
  | int i => exact hequal rfl path
  | str s => exact hequal rfl path
  | list _ ih =>
      cases hactual with
      | list hys =>
          rw [compare, matches_list_iff]
          exact compareSequences_eq_ok_iff fun x hx y hy path => ih x hx (hys y hy) path
      | tuple hys =>
          rw [compare, matches_listTuple_iff]
          exact compareSequences_eq_ok_iff fun x hx y hy path => ih x hx (hys y hy) path
      | _ => exact hequal rfl path
  | tuple _ ih =>
      cases hactual with
      | tuple hys =>
          rw [compare, matches_tuple_iff]
          exact compareSequences_eq_ok_iff fun x hx y hy path => ih x hx (hys y hy) path
      | _ => exact hequal rfl path
  | dict hxs _ ih =>
      cases hactual with
      | dict hys hvalues =>
          exact compareDicts_eq_ok_iff hxs hys fun x hx y hy path => ih x hx (hvalues y hy) path
      | _ => exact hequal rfl path

/-! ## Laws of the relation -/

/-- Equal well-keyed values match. -/
theorem matches_of_beq {v : Value} (hv : WellKeyed v) {w : Value} (hw : WellKeyed w)
    (h : (v == w) = true) : Matches v w := by
  have hitems {xs ys : List Value} (ih : ∀ x ∈ xs, ∀ {w}, WellKeyed w → (x == w) = true →
      Matches x w) (hys : ∀ y ∈ ys, WellKeyed y) (hequal : eqvAll xs ys = true) :
      xs.length = ys.length ∧
        ∀ (i : Nat) e a, xs[i]? = some e → ys[i]? = some a → Matches e a := by
    obtain ⟨hlength, hplaces⟩ := eqvAll_iff.mp hequal
    refine ⟨hlength, fun i e a he ha => ?_⟩
    exact ih e (List.mem_of_getElem? he) (hys a (List.mem_of_getElem? ha)) (hplaces i e a he ha)
  induction hv generalizing w with
  | null => exact .equal rfl h
  | bool b => exact .equal rfl h
  | int i => exact .equal rfl h
  | str s => exact .equal rfl h
  | list _ ih =>
      cases hw with
      | list hys => exact matches_list_iff.mpr (hitems (fun x hx _ => ih x hx) hys h)
      | _ => cases h
  | tuple _ ih =>
      cases hw with
      | tuple hys => exact matches_tuple_iff.mpr (hitems (fun x hx _ => ih x hx) hys h)
      | _ => cases h
  | dict hxs _ ih =>
      cases hw with
      | dict hys hvalues =>
          obtain ⟨hkeys, hequal⟩ := keys_and_values_of_eqv hxs hys h
          exact .dict hkeys fun k e a he ha => ih _ he (hvalues _ ha) (hequal k e a he ha)
      | _ => cases h

theorem matches_self {v : Value} (hv : WellKeyed v) : Matches v v := by
  have hsame {xs : List Value} (ih : ∀ x ∈ xs, Matches x x) (i : Nat) (e a : Value)
      (he : xs[i]? = some e) (ha : xs[i]? = some a) : Matches e a := by
    rw [he] at ha
    cases ha
    exact ih e (List.mem_of_getElem? he)
  induction hv with
  | null => exact .equal rfl rfl
  | bool b => exact .equal rfl (Flat.bool b).eqv_self
  | int i => exact .equal rfl (Flat.int i).eqv_self
  | str s => exact .equal rfl (Flat.str s).eqv_self
  | list _ ih => exact .list rfl (hsame ih)
  | tuple _ ih => exact .tuple rfl (hsame ih)
  | dict hkeys _ ih =>
      refine .dict (fun _ => Iff.rfl) fun k e a he ha => ?_
      rw [hkeys.unique ha he]
      exact ih _ he

theorem Matches.trans {u v w : Value} (huv : Matches u v) (hvw : Matches v w) : Matches u w := by
  -- Of three sequences of one length the one in the middle has an element at every place.
  have hitems {xs ys zs : List Value} (hlength : xs.length = ys.length)
      (ih : ∀ (i : Nat) x y, xs[i]? = some x → ys[i]? = some y → ∀ {w}, Matches y w → Matches x w)
      (hyz : ys.length = zs.length ∧
        ∀ (i : Nat) y z, ys[i]? = some y → zs[i]? = some z → Matches y z) :
      xs.length = zs.length ∧
        ∀ (i : Nat) x z, xs[i]? = some x → zs[i]? = some z → Matches x z := by
    refine ⟨hlength.trans hyz.1, fun i x z hx hz => ?_⟩
    obtain ⟨hi, -⟩ := List.getElem?_eq_some_iff.mp hx
    have hy : ys[i]? = some ys[i] := List.getElem?_eq_getElem (hlength ▸ hi)
    exact ih i x _ hx hy (hyz.2 i _ z hy hz)
  induction huv generalizing w with
  | equal hparts hequal =>
      rw [eq_of_beq_of_not_comparedByParts hparts hequal]
      exact hvw
  | dict hkeys _ ih =>
      cases w with
      | dict zs =>
          obtain ⟨hkeys', hvalues⟩ := matches_dict_iff.mp hvw
          refine .dict (fun k => (hkeys k).trans (hkeys' k)) fun k e a he ha => ?_
          obtain ⟨⟨_, y⟩, hy, rfl⟩ := List.mem_map.mp ((hkeys k).mp (List.mem_map_of_mem he))
          exact ih _ e y he hy (hvalues _ y a hy ha)
      | _ => cases (matches_iff_beq rfl).mp hvw
  | list hlength _ ih =>
      cases w with
      | list zs => exact matches_list_iff.mpr (hitems hlength ih (matches_list_iff.mp hvw))
      | tuple zs =>
          exact matches_listTuple_iff.mpr (hitems hlength ih (matches_listTuple_iff.mp hvw))
      | _ => cases (matches_iff_beq rfl).mp hvw
  | listTuple hlength _ ih =>
      cases w with
      | tuple zs => exact matches_listTuple_iff.mpr (hitems hlength ih (matches_tuple_iff.mp hvw))
      | _ => cases (matches_iff_beq rfl).mp hvw
  | tuple hlength _ ih =>
      cases w with
      | tuple zs => exact matches_tuple_iff.mpr (hitems hlength ih (matches_tuple_iff.mp hvw))
      | _ => cases (matches_iff_beq rfl).mp hvw

/-! ## The comparison -/

/-- On well-keyed values the comparison finds no difference exactly if the values match. So it finds
none between equal values, in particular between a value and itself, and none between the ends of a
chain of values without differences. -/
theorem comparison_decided_by_matching {u v w : Value} (hu : WellKeyed u) (hv : WellKeyed v)
    (hw : WellKeyed w) :
    (∀ path, compare path u v = .ok () ↔ Matches u v) ∧
      ((u == v) = true → ∀ path, compare path u v = .ok ()) ∧
      (∀ path, compare path u u = .ok ()) ∧
      ∀ p q r, compare p u v = .ok () → compare q v w = .ok () → compare r u w = .ok () := by
  refine ⟨compare_eq_ok_iff hu hv, fun hequal path => ?_, fun path => ?_, fun p q r huv hvw => ?_⟩
  · exact (compare_eq_ok_iff hu hv path).mpr (matches_of_beq hu hv hequal)
  · exact (compare_eq_ok_iff hu hu path).mpr (matches_self hu)
  · have hmatches : Matches u v := (compare_eq_ok_iff hu hv p).mp huv
    exact (compare_eq_ok_iff hu hw r).mpr (hmatches.trans ((compare_eq_ok_iff hv hw q).mp hvw))

/-- A list stands for a tuple under a key that has another place in the actual dict. -/
theorem comparison_decided_by_matching_reordered :
    compare "" (.dict [(.str "b", .list [.int 1]), (.tuple [.null], .bool true)])
      (.dict [(.tuple [.null], .bool true), (.str "b", .tuple [.int 1])]) = .ok () := by
  have hflat : Flat (.tuple [.null]) := .tuple (List.forall_mem_singleton.mpr .null)
  have hexpected : WellKeyed (.dict [(.str "b", .list [.int 1]), (.tuple [.null], .bool true)]) :=
    .dict ⟨List.forall_mem_cons.mpr ⟨.str _, List.forall_mem_singleton.mpr hflat⟩, by simp⟩
      (List.forall_mem_cons.mpr ⟨.list (List.forall_mem_singleton.mpr (.int 1)),
        List.forall_mem_singleton.mpr (.bool true)⟩)
  have hactual : WellKeyed (.dict [(.tuple [.null], .bool true), (.str "b", .tuple [.int 1])]) :=
    .dict ⟨List.forall_mem_cons.mpr ⟨hflat, List.forall_mem_singleton.mpr (.str _)⟩, by simp⟩
      (List.forall_mem_cons.mpr ⟨.bool true,
        List.forall_mem_singleton.mpr (.tuple (List.forall_mem_singleton.mpr (.int 1)))⟩)
  refine ((comparison_decided_by_matching hexpected hactual hactual).1 "").mpr
    (.dict (by simp [or_comm]) ?_)
  intro k e a he ha
  simp only [List.mem_cons, Prod.mk.injEq, List.not_mem_nil, or_false] at he ha
  rcases he with ⟨rfl, rfl⟩ | ⟨rfl, rfl⟩
  · rcases ha with ⟨hkey, -⟩ | ⟨-, rfl⟩
    · cases hkey
    · refine .listTuple rfl fun i e a he ha => ?_
      cases i with
      | zero =>
          cases he
          cases ha
          exact .equal rfl rfl
      | succ i => cases he
  · rcases ha with ⟨-, rfl⟩ | ⟨hkey, -⟩
    · exact .equal rfl rfl
    · cases hkey

end Value

end DepsManifest
