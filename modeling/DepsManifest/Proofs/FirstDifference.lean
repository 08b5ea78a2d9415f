import DepsManifest.Proofs.Comparison
import DepsManifest.Proofs.Value.Route
/-! # The comparison reports the first difference

If the comparison of two well-keyed values fails, what it reports is the place where they first
differ (`Value.compare_reports_first_difference`). The report gives a path, which is a text; the
theorem gives the place itself, a route that leads there in both values:

  * **the route** — its text, after the given path, is the reported path. Texts of routes are not
    injective, as keys are written without escapes; this is why the place is a route;
  * **the difference** — the two values there differ as values that are compared do
    (`Value.Differs`). They are dicts with different keys, and the keys are reported in order;
    sequences of different lengths, and the lengths are reported; or values that are compared as
    wholes and are not equal, and they are reported;
  * **above the route** the values are alike (`Value.SameOutline`): dicts with the same keys, or
    sequences of one length that are compared with each other;
  * **before the route** whatever stands in the expected value matches what stands there in the
    actual one;
  * **the two sides** of the report are not equal, so they are also printed differently.

## The way of the proof

All of it but the last point is one structure, `FoundAt`, which grows from the place upwards:
`Differs.foundAt` at the place itself, with nothing above and nothing before, and `FoundAt.step`
from a part of two values to the values. A step needs to know that the parts before it match, and
that is what a loop of the program knows when it fails (`FirstAt`). The induction is over the
expected value (`located_of_wellKeyed`).

## Lengths

Where lengths are reported they are whole numbers of the program, so two lengths that are equal
modulo `2 ^ 64` would be reported alike. No sequence in memory is that long: the last point takes
sequences whose lengths a whole number can say (`Value.Countable`). The other points take nothing.
-/
namespace DepsManifest

open Value (Step)

namespace Difference

/-- A step as the path of a difference writes it. -/
def stepText : Step → String
  | .key (.str s) => "[\"" ++ s ++ "\"]"
  | .key k => "[" ++ k.repr ++ "]"
  | .index i => "[" ++ String.ofList (Text.decimal i) ++ "]"

/-- A route as the path of a difference writes it. -/
def routeText : List Step → String
  | [] => ""
  | s :: route => stepText s ++ routeText route

theorem keyPath_eq (path : String) (k : Value) : keyPath path k = path ++ stepText (.key k) := by
  cases k with
  | str s => simp only [keyPath, stepText, String.append_assoc]
  | _ => simp only [keyPath, stepText, String.append_assoc]

theorem append_routeText (path : String) (s : Step) (route : List Step) :
    path ++ routeText (s :: route) = (path ++ stepText s) ++ routeText route := by
  rw [routeText, String.append_assoc]

end Difference

open Difference (stepText routeText)

namespace Value

/-- Two values that are compared by their parts, and where each part of the one has a part of the
other to be compared with. -/
inductive SameOutline : Value → Value → Prop
  | dict {xs ys : List (Value × Value)} : (∀ k, k ∈ xs.map (·.1) ↔ k ∈ ys.map (·.1)) →
      SameOutline (.dict xs) (.dict ys)
  | sequence {v w : Value} {xs ys : List Value} : comparedByParts v w = true →
      v.asSequence? = some xs → w.asSequence? = some ys → xs.length = ys.length → SameOutline v w

/-- The keys of some entries in the order of their printed forms. -/
structure SortedKeys (entries : List (Value × Value)) (keys : List Value) : Prop where
  perm : keys.Perm (entries.map (·.1))
  sorted : keys.Pairwise fun a b => a.repr ≤ b.repr

/-- Two values differ at a path, and the difference says how. -/
inductive Differs (path : String) : Value → Value → Difference → Prop
  | keys {xs ys : List (Value × Value)} {ks ls : List Value} :
      ¬(∀ k, k ∈ xs.map (·.1) ↔ k ∈ ys.map (·.1)) → SortedKeys xs ks → SortedKeys ys ls →
      Differs path (.dict xs) (.dict ys) ⟨path, .list ks, .list ls⟩
  | lengths {v w : Value} {xs ys : List Value} : comparedByParts v w = true →
      v.asSequence? = some xs → w.asSequence? = some ys → xs.length ≠ ys.length →
      Differs path v w
        ⟨"len(" ++ path ++ ")", .int (Int64.ofNat xs.length), .int (Int64.ofNat ys.length)⟩
  | values {v w : Value} : comparedByParts v w = false → (v == w) = false →
      Differs path v w ⟨path, v, w⟩

/-- The route leads to the first difference of two values that are compared from a path on. -/
structure FoundAt (path : String) (expected actual : Value) (d : Difference) (route : List Step) :
    Prop where
  differ : ∃ e a, expected.Leads route e ∧ actual.Leads route a ∧
    Differs (path ++ routeText route) e a d
  above : ∀ outer s inner, route = outer ++ s :: inner →
    ∃ e a, expected.Leads outer e ∧ actual.Leads outer a ∧ SameOutline e a
  before : ∀ other e, expected.Before other route → expected.Leads other e →
    ∃ a, actual.Leads other a ∧ Matches e a

/-- A value that is no sequence, or one whose length is a whole number of 64 bits with sign. -/
def Countable (v : Value) : Prop := ∀ items, v.asSequence? = some items → items.length < 2 ^ 63

/-! ## Parts of matching values -/

section Parts

variable {v w x y : Value} {xs ys : List Value} {s : Step} {route : List Step}

theorem cases_of_comparedByParts (h : comparedByParts v w = true) :
    (∃ xs ys, v = .dict xs ∧ w = .dict ys) ∨
      ∃ xs ys, v.asSequence? = some xs ∧ w.asSequence? = some ys := by
  cases v with
  | dict xs =>
      cases w with
      | dict ys => exact .inl ⟨xs, ys, rfl, rfl⟩
      | _ => cases h
  | list xs =>
      cases w with
      | list ys => exact .inr ⟨xs, ys, rfl, rfl⟩
      | tuple ys => exact .inr ⟨xs, ys, rfl, rfl⟩
      | _ => cases h
  | tuple xs =>
      cases w with
      | tuple ys => exact .inr ⟨xs, ys, rfl, rfl⟩
      | _ => cases h
  | _ => cases h

theorem exists_part_of_indexed (hlength : xs.length = ys.length)
    (hitems : ∀ (i : Nat) e a, xs[i]? = some e → ys[i]? = some a → Matches e a)
    (hx : (s, x) ∈ indexed xs) : ∃ y, (s, y) ∈ indexed ys ∧ Matches x y := by
  obtain ⟨i, rfl, hi⟩ := mem_indexed_iff.mp hx
  obtain ⟨hlt, -⟩ := List.getElem?_eq_some_iff.mp hi
  have hy : ys[i]? = some ys[i] := List.getElem?_eq_getElem (hlength ▸ hlt)
  exact ⟨_, mem_indexed_iff.mpr ⟨i, rfl, hy⟩, hitems i x _ hi hy⟩

theorem Matches.exists_part (h : Matches v w) (hx : (s, x) ∈ v.parts) :
    ∃ y, (s, y) ∈ w.parts ∧ Matches x y := by
  cases h with
  | dict hkeys hvalues =>
      obtain ⟨k, rfl, hk⟩ := mem_parts_dict_iff.mp hx
      obtain ⟨⟨_, y⟩, hy, rfl⟩ := List.mem_map.mp ((hkeys k).mp (List.mem_map_of_mem hk))
      exact ⟨y, mem_parts_dict_iff.mpr ⟨_, rfl, hy⟩, hvalues _ x y hk hy⟩
  | list hlength hitems => exact exists_part_of_indexed hlength hitems hx
  | listTuple hlength hitems => exact exists_part_of_indexed hlength hitems hx
  | tuple hlength hitems => exact exists_part_of_indexed hlength hitems hx
  | equal hparts hequal =>
      obtain rfl := eq_of_beq_of_not_comparedByParts hparts hequal
      -- A value with parts would be compared with itself by them.
      cases v with
      | list _ => cases hparts
      | tuple _ => cases hparts
      | dict _ => cases hparts
      | _ => cases hx

/-- Wherever a route leads in a value, it leads to a match in a value that matches. -/
theorem Matches.exists_leads (h : Matches v w) {e : Value} (he : v.Leads route e) :
    ∃ a, w.Leads route a ∧ Matches e a := by
  induction he generalizing w with
  | here v => exact ⟨w, .here w, h⟩
  | step hpart _ ih =>
      obtain ⟨y, hy, hxy⟩ := h.exists_part hpart
      obtain ⟨a, ha, hmatch⟩ := ih hxy
      exact ⟨a, .step hy ha, hmatch⟩

theorem WellKeyed.part (h : WellKeyed v) (hx : (s, x) ∈ v.parts) : WellKeyed x := by
  cases h with
  | list hitems =>
      obtain ⟨i, -, hi⟩ := mem_indexed_iff.mp hx
      exact hitems x (List.mem_of_getElem? hi)
  | tuple hitems =>
      obtain ⟨i, -, hi⟩ := mem_indexed_iff.mp hx
      exact hitems x (List.mem_of_getElem? hi)
  | dict _ hvalues =>
      obtain ⟨k, -, he⟩ := mem_parts_dict_iff.mp hx
      exact hvalues _ he
  | _ => cases hx

theorem WellKeyed.of_leads (h : WellKeyed v) (hw : v.Leads route w) : WellKeyed w := by
  induction hw with
  | here v => exact h
  | step hpart _ ih => exact ih (h.part hpart)

end Parts

/-! ## One step down -/

section Found

variable {path : String} {expected actual x y : Value} {d : Difference} {s : Step}
  {route : List Step} {n : Nat}

/-- Values that differ themselves have nothing above or before their difference. -/
theorem Differs.foundAt (h : Differs path expected actual d) :
    FoundAt path expected actual d [] where
  differ := by
    refine ⟨expected, actual, .here _, .here _, ?_⟩
    rw [routeText, String.append_empty]
    exact h
  above := by
    intro outer s inner hroute
    exact absurd hroute (by simp)
  before := nofun

/-- The first difference of two values is that of two of their parts, if the parts before match. -/
theorem FoundAt.step (h : FoundAt (path ++ stepText s) x y d route)
    (houtline : SameOutline expected actual) (hkeys : DistinctKeys expected)
    (hx : expected.parts[n]? = some (s, x)) (hy : (s, y) ∈ actual.parts)
    (hearlier : ∀ m < n, ∀ t e, expected.parts[m]? = some (t, e) →
      ∃ a, (t, a) ∈ actual.parts ∧ Matches e a) :
    FoundAt path expected actual d (s :: route) where
  differ := by
    obtain ⟨e, a, he, ha, hdiffers⟩ := h.differ
    rw [← Difference.append_routeText] at hdiffers
    exact ⟨e, a, .step (List.mem_of_getElem? hx) he, .step hy ha, hdiffers⟩
  above := by
    intro outer t inner hroute
    cases outer with
    | nil => exact ⟨expected, actual, .here _, .here _, houtline⟩
    | cons u outer =>
        obtain ⟨rfl, hrest⟩ := List.cons.inj hroute
        obtain ⟨e, a, he, ha, hsame⟩ := h.above outer t inner hrest
        exact ⟨e, a, .step (List.mem_of_getElem? hx) he, .step hy ha, hsame⟩
  before := by
    intro other e hbefore he
    cases hbefore with
    | @branch _ x' y' t _ other' _ m k hm hk hlt =>
        -- The step leads from the value in one way only, so the routes part before its place.
        have hplace : k = n := by
          have hnth : (expected.parts.map (·.1))[k]? = (expected.parts.map (·.1))[n]? := by
            rw [List.getElem?_map, List.getElem?_map, hk, hx]
            rfl
          obtain ⟨hlength, -⟩ := List.getElem?_eq_some_iff.mp hk
          exact (List.getElem?_inj (by simpa using hlength) hkeys.nodup_steps).mp hnth
        cases he with
        | step hpart hleads =>
            obtain rfl := hkeys.unique hpart (List.mem_of_getElem? hm)
            obtain ⟨b, hb, hmatch⟩ := hearlier m (hplace ▸ hlt) t _ hm
            obtain ⟨a, ha, hmatches⟩ := hmatch.exists_leads hleads
            exact ⟨a, .step hb ha, hmatches⟩
    | @inside _ x' _ other' _ hx' hinside =>
        obtain rfl := hkeys.unique hx' (List.mem_of_getElem? hx)
        cases he with
        | step hpart hleads =>
            obtain rfl := hkeys.unique hpart hx'
            obtain ⟨a, ha, hmatches⟩ := h.before other' e hinside hleads
            exact ⟨a, .step hy ha, hmatches⟩

end Found

/-! ## The parts that are compared -/

/-- One element of a list fails, as its place says, and those before it pass. -/
def FirstAt {α : Type} (l : List α) (fails : Nat → α → Prop) (passes : α → Prop) : Prop :=
  ∃ n x, l[n]? = some x ∧ fails n x ∧ ∀ m < n, ∀ y, l[m]? = some y → passes y

section FirstAt

variable {α : Type} {x : α} {l : List α} {fails : Nat → α → Prop} {passes : α → Prop}

theorem FirstAt.head (h : fails 0 x) : FirstAt (x :: l) fails passes :=
  ⟨0, x, rfl, h, fun m hm => absurd hm (Nat.not_lt_zero m)⟩

theorem FirstAt.tail (hfirst : passes x) (h : FirstAt l (fun n => fails (n + 1)) passes) :
    FirstAt (x :: l) fails passes := by
  obtain ⟨n, y, hy, hfails, hearlier⟩ := h
  refine ⟨n + 1, y, hy, hfails, fun m hm z hz => ?_⟩
  cases m with
  | zero =>
      cases hz
      exact hfirst
  | succ m => exact hearlier m (Nat.lt_of_succ_lt_succ hm) z hz

end FirstAt

theorem compareFrom_eq_error {path : String} {index : Nat} {xs ys : List Value} {d : Difference}
    (h : compareFrom path index xs ys = .error d) :
    FirstAt (xs.zip ys)
      (fun n e => compare (path ++ stepText (.index (index + n))) e.1 e.2 = .error d)
      fun e => ∃ p, compare p e.1 e.2 = .ok () := by
  induction xs generalizing ys index with
  | nil =>
      rw [compareFrom] at h
      · cases h
      · intro _ _ _ _ hxs
        cases hxs
  | cons x xs ih =>
      cases ys with
      | nil =>
          rw [compareFrom] at h
          · cases h
          · intro _ _ _ _ _ hys
            cases hys
      | cons y ys =>
          rw [compareFrom, String.append_assoc, String.append_assoc] at h
          rcases bind_eq_error.mp h with hfirst | ⟨_, hfirst, hrest⟩
          · exact .head hfirst
          · have hlater := ih hrest
            simp only [Nat.add_right_comm index 1] at hlater
            exact .tail ⟨_, hfirst⟩ hlater

theorem compareEntries_eq_error {path : String} {xs : List (Value × Value)} {actual : Dict}
    {d : Difference} (h : compareEntries path xs actual = .error d) :
    FirstAt xs
      (fun _ e => ∃ a, actual.get? e.1 = some a ∧
        compare (path ++ stepText (.key e.1)) e.2 a = .error d)
      fun e => ∀ a, actual.get? e.1 = some a → ∃ p, compare p e.2 a = .ok () := by
  induction xs with
  | nil => cases h
  | cons e xs ih =>
      obtain ⟨k, e⟩ := e
      rw [compareEntries] at h
      cases hget : actual.get? k with
      | none =>
          rw [hget] at h
          refine .tail ?_ (ih h)
          intro a ha
          rw [hget] at ha
          cases ha
      | some a =>
          rw [hget, Difference.keyPath_eq] at h
          rcases bind_eq_error.mp h with hfirst | ⟨_, hfirst, hrest⟩
          · exact .head ⟨a, hget, hfirst⟩
          · refine .tail ?_ (ih hrest)
            intro b hb
            rw [hget] at hb
            cases hb
            exact ⟨_, hfirst⟩

theorem compare_of_asSequence? {path : String} {expected actual : Value} {xs ys : List Value}
    (hparts : comparedByParts expected actual = true) (hxs : expected.asSequence? = some xs)
    (hys : actual.asSequence? = some ys) : compare path expected actual =
      match Difference.ofLengths? path xs ys with
      | some difference => .error difference
      | none => compareFrom path 0 xs ys := by
  cases expected with
  | list _ =>
      cases hxs
      cases actual with
      | list _ =>
          cases hys
          unfold compare
          rfl
      | tuple _ =>
          cases hys
          unfold compare
          rfl
      | _ => cases hys
  | tuple _ =>
      cases hxs
      cases actual with
      | tuple _ =>
          cases hys
          unfold compare
          rfl
      | list _ => cases hparts
      | _ => cases hys
  | _ => cases hxs

/-! ## Where the comparison fails -/

section Compared

variable {path : String} {expected actual : Value} {d : Difference}

/-- Wherever two values are compared, a failure has a first difference. -/
def Located (v w : Value) : Prop :=
  ∀ p d, compare p v w = .error d → ∃ route, FoundAt p v w d route

theorem located_of_not_comparedByParts (hparts : comparedByParts expected actual = false) :
    Located expected actual := by
  intro p d h
  rw [compare_eq_of_not_comparedByParts hparts] at h
  split at h
  · cases h
  · rename_i hne
    cases h
    exact ⟨[], (Differs.values hparts (Bool.eq_false_iff.mpr hne)).foundAt⟩

theorem located_of_sequences {xs ys : List Value} (hexpected : WellKeyed expected)
    (hactual : WellKeyed actual) (hparts : comparedByParts expected actual = true)
    (hxs : expected.asSequence? = some xs) (hys : actual.asSequence? = some ys)
    (ih : ∀ x ∈ xs, ∀ y, WellKeyed y → Located x y) : Located expected actual := by
  have hx {i : Nat} {x : Value} (h : xs[i]? = some x) : (.index i, x) ∈ expected.parts := by
    rw [parts_of_asSequence? hxs]
    exact mem_indexed_iff.mpr ⟨i, rfl, h⟩
  have hy {i : Nat} {y : Value} (h : ys[i]? = some y) : (.index i, y) ∈ actual.parts := by
    rw [parts_of_asSequence? hys]
    exact mem_indexed_iff.mpr ⟨i, rfl, h⟩
  intro p d h
  rw [compare_of_asSequence? hparts hxs hys, Difference.ofLengths?] at h
  by_cases hlength : xs.length = ys.length
  · rw [if_pos hlength] at h
    obtain ⟨n, ⟨e, a⟩, hpair, hcompare, hearlier⟩ := compareFrom_eq_error h
    rw [Nat.zero_add] at hcompare
    obtain ⟨he, ha⟩ := List.getElem?_zip_eq_some.mp hpair
    obtain ⟨route, hroute⟩ :=
      ih e (List.mem_of_getElem? he) a (hactual.part (hy ha)) _ d hcompare
    refine ⟨.index n :: route, hroute.step (.sequence hparts hxs hys hlength) hexpected.distinctKeys
      (n := n) ?_ (hy ha) ?_⟩
    · rw [parts_of_asSequence? hxs, getElem?_indexed, he]
      rfl
    · intro m hm t x hpart
      rw [parts_of_asSequence? hxs, getElem?_indexed, Option.map_eq_some_iff] at hpart
      obtain ⟨_, hx', ⟨⟩⟩ := hpart
      obtain ⟨hlt, -⟩ := List.getElem?_eq_some_iff.mp hx'
      have hy' : ys[m]? = some ys[m] := List.getElem?_eq_getElem (hlength ▸ hlt)
      obtain ⟨q, hok⟩ := hearlier m hm (x, ys[m]) (List.getElem?_zip_eq_some.mpr ⟨hx', hy'⟩)
      exact ⟨_, hy hy',
        (compare_eq_ok_iff (hexpected.part (hx hx')) (hactual.part (hy hy')) q).mp hok⟩
  · rw [if_neg hlength] at h
    cases h
    exact ⟨[], (Differs.lengths hparts hxs hys hlength).foundAt⟩

theorem sortedKeys_sortedKeys (entries : List (Value × Value)) :
    SortedKeys entries (Difference.sortedKeys entries) :=
  ⟨List.mergeSort_perm _ _, pairwise_sortedKeys entries⟩

theorem located_of_dicts {xs ys : List (Value × Value)} (hxs : ProperKeys xs) (hys : ProperKeys ys)
    (hexpected : ∀ e ∈ xs, WellKeyed e.2) (hactual : ∀ e ∈ ys, WellKeyed e.2)
    (ih : ∀ e ∈ xs, ∀ y, WellKeyed y → Located e.2 y) : Located (.dict xs) (.dict ys) := by
  intro p d h
  rw [compare] at h
  by_cases hsame : ∀ k, k ∈ xs.map (·.1) ↔ k ∈ ys.map (·.1)
  · rw [(ofKeys?_eq_none_iff p hxs hys).mpr hsame] at h
    obtain ⟨n, ⟨k, e⟩, he, ⟨a, ha, hcompare⟩, hearlier⟩ := compareEntries_eq_error h
    have hmem : (k, a) ∈ ys := hys.get?_eq_some_iff.mp ha
    obtain ⟨route, hroute⟩ := ih _ (List.mem_of_getElem? he) a (hactual _ hmem) _ d hcompare
    refine ⟨.key k :: route, hroute.step (.dict hsame) (WellKeyed.dict hxs hexpected).distinctKeys
      (n := n) ?_ (mem_parts_dict_iff.mpr ⟨k, rfl, hmem⟩) ?_⟩
    · rw [parts, List.getElem?_map, he]
      rfl
    · intro m hm t x hpart
      rw [parts, List.getElem?_map, Option.map_eq_some_iff] at hpart
      obtain ⟨⟨k', _⟩, hx, ⟨⟩⟩ := hpart
      have hmem' := List.mem_of_getElem? hx
      obtain ⟨⟨_, y⟩, hy, rfl⟩ := List.mem_map.mp ((hsame k').mp (List.mem_map_of_mem hmem'))
      obtain ⟨q, hok⟩ := hearlier m hm _ hx y (hys.get?_eq_some_iff.mpr hy)
      exact ⟨y, mem_parts_dict_iff.mpr ⟨_, rfl, hy⟩,
        (compare_eq_ok_iff (hexpected _ hmem') (hactual _ hy) q).mp hok⟩
  · have hdiffers : Differs p (.dict xs) (.dict ys)
        ⟨p, .list (Difference.sortedKeys xs), .list (Difference.sortedKeys ys)⟩ :=
      .keys hsame (sortedKeys_sortedKeys xs) (sortedKeys_sortedKeys ys)
    rw [Difference.ofKeys?, Bool.eq_false_iff.mpr
      (fun heq => hsame ((eqvAll_sortedKeys_iff hxs hys).mp heq))] at h
    cases h
    exact ⟨[], hdiffers.foundAt⟩

/-- If the comparison of well-keyed values fails, a route leads to the first difference. -/
theorem located_of_wellKeyed (hexpected : WellKeyed expected) :
    ∀ actual, WellKeyed actual → Located expected actual := by
  -- A list and a tuple are compared in one way with whatever there is.
  have hsequence {v w : Value} {xs : List Value} (hv : WellKeyed v) (hxs : v.asSequence? = some xs)
      (hw : WellKeyed w) (ih : ∀ x ∈ xs, ∀ y, WellKeyed y → Located x y) : Located v w := by
    cases hparts : comparedByParts v w with
    | false => exact located_of_not_comparedByParts hparts
    | true =>
        obtain ⟨_, _, rfl, -⟩ | ⟨_, ys, -, hys⟩ := cases_of_comparedByParts hparts
        · cases hxs
        · exact located_of_sequences hv hw hparts hxs hys ih
  induction hexpected with
  | null => exact fun _ _ => located_of_not_comparedByParts rfl
  | bool b => exact fun _ _ => located_of_not_comparedByParts rfl
  | int i => exact fun _ _ => located_of_not_comparedByParts rfl
  | str s => exact fun _ _ => located_of_not_comparedByParts rfl
  | list hxs ih => exact fun w hw => hsequence (.list hxs) rfl hw ih
  | tuple hxs ih => exact fun w hw => hsequence (.tuple hxs) rfl hw ih
  | dict hxs hvalues ih =>
      intro w hw
      cases hw with
      | dict hys hvalues' => exact located_of_dicts hxs hys hvalues hvalues' ih
      | _ => exact located_of_not_comparedByParts rfl

/-! ## What is reported -/

theorem ofNat_inj_of_lt {m n : Nat} (hm : m < 2 ^ 63) (hn : n < 2 ^ 63)
    (h : Int64.ofNat m = Int64.ofNat n) : m = n := by
  have hint := congrArg Int64.toInt h
  rw [Int64.toInt_ofNat_of_lt hm, Int64.toInt_ofNat_of_lt hn] at hint
  exact Int.ofNat.inj hint

theorem Differs.constructible_and_ne {v w : Value} (h : Differs path v w d) (hv : WellKeyed v)
    (hw : WellKeyed w) (hcount : Countable v) (hcount' : Countable w) :
    Constructible d.expected ∧ (d.expected == d.actual) = false := by
  cases h with
  | @keys xs ys ks ls hkeys hks hls =>
      have hxs : ProperKeys xs := by
        cases hv with
        | dict hxs _ => exact hxs
      have hflat : ∀ k ∈ ks, Flat k := fun k hk => hxs.flat_of_mem_map (hks.perm.mem_iff.mp hk)
      refine ⟨.list fun k hk => (hflat k hk).constructible, Bool.eq_false_iff.mpr fun hequal => ?_⟩
      have hsame : ks = ls := eq_of_eqvAll (fun k hk y => (hflat k hk).eq_of_eqv) hequal
      refine hkeys fun k => ?_
      rw [← hks.perm.mem_iff, hsame, hls.perm.mem_iff]
  | @lengths _ _ xs ys _ hxs hys hlength =>
      refine ⟨.int _, Bool.eq_false_iff.mpr fun hequal => hlength ?_⟩
      exact ofNat_inj_of_lt (hcount xs hxs) (hcount' ys hys)
        (Value.int.inj ((Flat.int _).eq_of_eqv hequal))
  | values _ hne => exact ⟨hv.constructible, hne⟩

/-- If the comparison of two well-keyed values fails, a route leads in both to the first difference,
and to the reported path. The two values there are dicts with different keys, sequences of different
lengths, or values that are compared as wholes and not equal, and that is what is reported. Above
them the values have the same parts, and whatever stands before the route in the expected value
matches what stands there in the actual one. What is reported as expected and as actual is neither
equal nor printed alike. -/
theorem compare_reports_first_difference (hexpected : WellKeyed expected)
    (hactual : WellKeyed actual) (h : compare path expected actual = .error d) :
    ∃ route e a, expected.Leads route e ∧ actual.Leads route a ∧
      Differs (path ++ routeText route) e a d ∧
      (∀ outer s inner, route = outer ++ s :: inner →
        ∃ v w, expected.Leads outer v ∧ actual.Leads outer w ∧ SameOutline v w) ∧
      (∀ other v, expected.Before other route → expected.Leads other v →
        ∃ w, actual.Leads other w ∧ Matches v w) ∧
      (Countable e → Countable a →
        (d.expected == d.actual) = false ∧ d.expected.repr ≠ d.actual.repr) := by
  obtain ⟨route, hfound⟩ := located_of_wellKeyed hexpected actual hactual path d h
  obtain ⟨e, a, he, ha, hdiffers⟩ := hfound.differ
  refine ⟨route, e, a, he, ha, hdiffers, hfound.above, hfound.before, fun hcount hcount' => ?_⟩
  obtain ⟨hconstructible, hne⟩ := hdiffers.constructible_and_ne (hexpected.of_leads he)
    (hactual.of_leads ha) hcount hcount'
  refine ⟨hne, fun hrepr => ?_⟩
  rw [← repr_inj hrepr] at hne
  exact Bool.eq_false_iff.mp hne (equivalenceOn_constructible.refl hconstructible)

end Compared

def pinnedEntries : List (Value × Value) :=
  [(.str "strict", .null), (.str "hosts", .list [.str "a", .str "b"])]

/-- Entries with the same keys, of which one has another value inside. -/
def strayEntries : List (Value × Value) :=
  [(.str "hosts", .tuple [.str "a", .str "c"]), (.str "strict", .null)]

/-- A list stands for a tuple, and the elements differ at the second place. -/
theorem compare_reports_first_difference_element :
    compare "" (.dict pinnedEntries) (.dict strayEntries) =
      .error ⟨"[\"hosts\"][1]", .str "b", .str "c"⟩ ∧
    (∃ route, (dict pinnedEntries).Leads route (.str "b") ∧
      (dict strayEntries).Leads route (.str "c") ∧ routeText route = "[\"hosts\"][1]") ∧
    (str "b").repr ≠ (str "c").repr := by
  have hpair (a b : String) : ∀ v ∈ [str a, str b], WellKeyed v :=
    List.forall_mem_cons.mpr ⟨.str a, List.forall_mem_singleton.mpr (.str b)⟩
  have hkeys (a b : String) : ∀ v ∈ [str a, str b], Flat v :=
    List.forall_mem_cons.mpr ⟨.str a, List.forall_mem_singleton.mpr (.str b)⟩
  have hpinned : ProperKeys pinnedEntries :=
    ⟨List.forall_mem_map.mp (hkeys "strict" "hosts"), by simp [pinnedEntries]⟩
  have hstray : ProperKeys strayEntries :=
    ⟨List.forall_mem_map.mp (hkeys "hosts" "strict"), by simp [strayEntries]⟩
  have hexpected : WellKeyed (.dict pinnedEntries) :=
    .dict hpinned (List.forall_mem_cons.mpr
      ⟨.null, List.forall_mem_singleton.mpr (.list (hpair "a" "b"))⟩)
  have hactual : WellKeyed (.dict strayEntries) :=
    .dict hstray (List.forall_mem_cons.mpr
      ⟨.tuple (hpair "a" "c"), List.forall_mem_singleton.mpr .null⟩)
  have hcompare : compare "" (.dict pinnedEntries) (.dict strayEntries) =
      .error ⟨"[\"hosts\"][1]", .str "b", .str "c"⟩ := by
    have hsame : ∀ k, k ∈ pinnedEntries.map (·.1) ↔ k ∈ strayEntries.map (·.1) := by
      simp [pinnedEntries, strayEntries, or_comm]
    rw [compare, (ofKeys?_eq_none_iff "" hpinned hstray).mpr hsame]
    rfl
  refine ⟨hcompare, ?_⟩
  obtain ⟨route, e, a, he, ha, hdiffers, -, -, hne⟩ :=
    compare_reports_first_difference hexpected hactual hcompare
  -- What is reported are strings, so it is neither lists of keys nor lengths.
  generalize hreported : Difference.mk "[\"hosts\"][1]" (str "b") (str "c") = d at hdiffers
  cases hdiffers with
  | keys => cases (Difference.mk.inj hreported).2.1
  | lengths => cases (Difference.mk.inj hreported).2.1
  | values =>
      obtain ⟨hpath, rfl, rfl⟩ := Difference.mk.inj hreported
      rw [String.empty_append] at hpath
      have hcount : ∀ text, Countable (str text) := by
        intro text items hitems
        cases hitems
      exact ⟨⟨route, he, ha, hpath.symm⟩, (hne (hcount "b") (hcount "c")).2⟩

end Value

end DepsManifest
