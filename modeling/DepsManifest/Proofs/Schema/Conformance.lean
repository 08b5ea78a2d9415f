import DepsManifest.Proofs.Value.Dict
import DepsManifest.Schema.Manifest
import Mathlib.Data.List.Enum
/-! # Values that have a shape

`Shape.Conforms` says which values have a shape, without paths, kinds of values or reports. The
mismatches of a value with a shape decide it (`Shape.mismatches_eq_nil_iff`): a value that has the
shape has no mismatch, and one that has not has at least one. So a check of shapes rejects nothing
that is right, and overlooks nothing that is wrong; and conformance is decidable.

The statement holds of every shape, every value and every path; no dict need have distinct keys. For
scopes it says that a scope is valid exactly if its dict has the shape of a manifest
(`Scope.mismatches_decide_conformance`).

## The way of the proof

The induction is on the shape (`Shape.inductionOnParts`), with one lemma for each kind of shape that
has parts. Of a record, an entry has to have a field and the value the shape of the field, and a
required field has to have an entry.

A choice is where a report could be lost, since only the mismatches with one of its alternatives are
kept. None is: if no alternative fits, then each of them has mismatches, also the one that is taken
to be meant (`chosen_eq_nil_iff`).
-/
namespace DepsManifest

/-- The field of a record that a key names: the first with its name. -/
def Field.ofKey? (fields : List Field) (key : Value) : Option Field :=
  fields.find? fun field => key.asString? == some field.name

namespace Shape

/-- The values that have a shape. -/
inductive Conforms : Shape → Value → Prop
  | str (s : String) : Conforms .str (.str s)
  | bool (b : Bool) : Conforms .bool (.bool b)
  | null : Conforms .null .null
  | list {item : Shape} {items : List Value} :
      (∀ v ∈ items, Conforms item v) → Conforms (.listOf item) (.list items)
  | pairList {first second : Shape} {a b : Value} :
      Conforms first a → Conforms second b → Conforms (.pair first second) (.list [a, b])
  | pairTuple {first second : Shape} {a b : Value} :
      Conforms first a → Conforms second b → Conforms (.pair first second) (.tuple [a, b])
  | map {value : Shape} {entries : List (Value × Value)} :
      (∀ e ∈ entries, ∃ name, e.1 = .str name) → (∀ e ∈ entries, Conforms value e.2) →
      Conforms (.mapOf value) (.dict entries)
  | record {fields : List Field} {entries : List (Value × Value)} :
      (∀ e ∈ entries, (Field.ofKey? fields e.1).isSome) →
      (∀ e ∈ entries, ∀ f, Field.ofKey? fields e.1 = some f → Conforms f.shape e.2) →
      (∀ f ∈ fields, f.isRequired = true → ∃ v, (.str f.name, v) ∈ entries) →
      Conforms (.record fields) (.dict entries)
  | oneOf {alternatives : List Shape} {shape : Shape} {v : Value} :
      shape ∈ alternatives → Conforms shape v → Conforms (.oneOf alternatives) v

/-! ## Values of each shape -/

theorem conforms_str_iff {v : Value} : Conforms .str v ↔ ∃ s, v = .str s := by
  constructor
  · rintro ⟨s⟩
    exact ⟨s, rfl⟩
  · rintro ⟨s, rfl⟩
    exact .str s

theorem conforms_null_iff {v : Value} : Conforms .null v ↔ v = .null := by
  constructor
  · rintro ⟨⟩
    rfl
  · rintro rfl
    exact .null

theorem conforms_listOf_iff {item : Shape} {v : Value} :
    Conforms (.listOf item) v ↔ ∃ items, v = .list items ∧ ∀ x ∈ items, Conforms item x := by
  constructor
  · intro h
    cases h with
    | list hitems => exact ⟨_, rfl, hitems⟩
  · rintro ⟨items, rfl, hitems⟩
    exact .list hitems

theorem conforms_mapOf_iff {value : Shape} {v : Value} :
    Conforms (.mapOf value) v ↔
      ∃ entries, v = .dict (stringKeyed entries) ∧ ∀ e ∈ entries, Conforms value e.2 := by
  constructor
  · intro h
    cases h with
    | map hkeys hvalues =>
        obtain ⟨entries, rfl⟩ := exists_eq_stringKeyed hkeys
        exact ⟨entries, rfl, fun e he => hvalues (.str e.1, e.2) (List.mem_map_of_mem he)⟩
  · rintro ⟨entries, rfl, hvalues⟩
    exact .map (List.forall_mem_map.mpr fun e _ => ⟨e.1, rfl⟩) (List.forall_mem_map.mpr hvalues)

theorem conforms_oneOf_iff {alternatives : List Shape} {v : Value} :
    Conforms (.oneOf alternatives) v ↔ ∃ s ∈ alternatives, Conforms s v := by
  constructor
  · intro h
    cases h with
    | oneOf hs hv => exact ⟨_, hs, hv⟩
  · rintro ⟨s, hs, hv⟩
    exact .oneOf hs hv

/-! ## Induction on shapes -/

/-- What holds of a shape if it holds of its parts holds of every shape. -/
theorem inductionOnParts {motive : Shape → Prop} (str : motive .str) (bool : motive .bool)
    (null : motive .null) (listOf : ∀ item, motive item → motive (.listOf item))
    (pair : ∀ first second, motive first → motive second → motive (.pair first second))
    (mapOf : ∀ value, motive value → motive (.mapOf value))
    (record : ∀ fields : List Field, (∀ f ∈ fields, motive f.shape) → motive (.record fields))
    (oneOf : ∀ alternatives : List Shape, (∀ s ∈ alternatives, motive s) →
      motive (.oneOf alternatives)) (s : Shape) : motive s :=
  @Shape.rec motive (fun f => motive f.shape) (fun fields => ∀ f ∈ fields, motive f.shape)
    (fun alternatives => ∀ s ∈ alternatives, motive s)
    str bool null listOf pair mapOf record oneOf (fun _ _ _ h => h)
    (List.forall_mem_nil _) (fun _ _ h hrest => List.forall_mem_cons.mpr ⟨h, hrest⟩)
    (List.forall_mem_nil _) (fun _ _ h hrest => List.forall_mem_cons.mpr ⟨h, hrest⟩) s

/-! ## Mismatches of each kind of shape -/

theorem mismatchUnless_eq_nil_iff {fits : Bool} {s : Shape} {path : String} {v : Value} :
    mismatchUnless fits s path v = [] ↔ fits = true := by
  cases fits with
  | false => exact ⟨fun h => (nomatch h), fun h => (nomatch h)⟩
  | true => exact ⟨fun _ => rfl, fun _ => rfl⟩

theorem fieldMismatches?_eq (path : String) (key v : Value) (fields : List Field) :
    fieldMismatches? path key v fields =
      (Field.ofKey? fields key).map fun f => mismatches path v f.shape := by
  induction fields with
  | nil => rfl
  | cons f rest ih =>
      obtain ⟨name, required, shape⟩ := f
      simp only [fieldMismatches?, Field.ofKey?, List.find?_cons, Field.name]
      by_cases h : (key.asString? == some name) = true
      · simp only [h, if_true, Option.map_some, Field.shape]
      · rw [Bool.not_eq_true] at h
        simp only [h, Bool.false_eq_true, if_false]
        exact ih

theorem attempts_eq_map (path : String) (v : Value) (alternatives : List Shape) :
    attempts path v alternatives =
      alternatives.map fun s => (acceptsKind v s, mismatches path v s) := by
  induction alternatives with
  | nil => rfl
  | cons s rest ih => exact congrArg (_ :: ·) ih

/-- No mismatch is reported with a choice exactly if one of the attempts has none. -/
theorem chosen_eq_nil_iff {whole : Mismatch} {attempts : List (Bool × List Mismatch)} :
    chosen whole attempts = [] ↔ ∃ attempt ∈ attempts, attempt.2 = [] := by
  unfold chosen
  split
  case isTrue h =>
    obtain ⟨attempt, hmem, hempty⟩ := List.any_eq_true.mp h
    exact ⟨fun _ => ⟨attempt, hmem, List.isEmpty_iff.mp hempty⟩, fun _ => rfl⟩
  case isFalse h =>
    have hnone : ∀ attempt ∈ attempts, attempt.2 ≠ [] := by
      intro attempt hmem hempty
      exact h (List.any_eq_true.mpr ⟨attempt, hmem, List.isEmpty_iff.mpr hempty⟩)
    constructor
    · intro hchosen
      split at hchosen
      · rename_i kind found hcandidates
        have hmem : (kind, found) ∈ attempts.filter (·.1) := by
          rw [hcandidates]
          exact List.mem_singleton_self _
        exact absurd hchosen (hnone _ (List.mem_filter.mp hmem).1)
      · cases hchosen
    · rintro ⟨attempt, hmem, hempty⟩
      exact absurd hempty (hnone attempt hmem)

theorem missing?_eq_none_iff {path : String} {entries : List (Value × Value)} {f : Field} :
    missing? path ⟨entries⟩ f = none ↔
      (f.isRequired = true → ∃ v, (.str f.name, v) ∈ entries) := by
  have hfound : ((⟨entries⟩ : Dict).getString? f.name).isSome = true ↔
      ∃ v, (.str f.name, v) ∈ entries := Dict.isSome_getString?
  rw [missing?]
  constructor
  · intro h hrequired
    refine hfound.mp ?_
    by_contra hnot
    simp [hrequired, Option.not_isSome_iff_eq_none.mp hnot] at h
  · intro h
    cases hrequired : f.isRequired with
    | false => rfl
    | true =>
        have hsome := hfound.mpr (h hrequired)
        rw [Option.isNone_eq_false_iff.mpr hsome]
        rfl

section Parts

variable {path : String} {v : Value}

theorem mismatches_listOf_eq_nil_iff {item : Shape}
    (ih : ∀ path v, mismatches path v item = [] ↔ Conforms item v) :
    mismatches path v (.listOf item) = [] ↔ Conforms (.listOf item) v := by
  cases v with
  | list items =>
      show
        (items.zipIdx.flatMap fun x => mismatches (Mismatch.indexPath path x.2) x.1 item) = [] ↔ _
      rw [List.flatMap_eq_nil_iff, List.forall_mem_zipIdx']
      constructor
      · intro h
        refine .list fun x hx => ?_
        obtain ⟨i, hi, rfl⟩ := List.getElem_of_mem hx
        exact (ih _ _).mp (h i hi)
      · intro h i hi
        cases h with
        | list h => exact (ih _ _).mpr (h _ (List.getElem_mem hi))
  | _ => exact ⟨fun h => (nomatch h), fun h => (nomatch h)⟩

theorem mismatches_pair_of_asSequence? {first second : Shape} {items : List Value}
    (hv : v.asSequence? = some items)
    (ih₁ : ∀ path v, mismatches path v first = [] ↔ Conforms first v)
    (ih₂ : ∀ path v, mismatches path v second = [] ↔ Conforms second v) :
    mismatches path v (.pair first second) = [] ↔
      ∃ a b, items = [a, b] ∧ Conforms first a ∧ Conforms second b := by
  rw [mismatches]
  rcases items with _ | ⟨a, _ | ⟨b, _ | ⟨c, rest⟩⟩⟩
  case cons.cons.nil =>
    simp only [hv, List.append_eq_nil_iff, ih₁, ih₂]
    constructor
    · rintro ⟨ha, hb⟩
      exact ⟨a, b, rfl, ha, hb⟩
    · rintro ⟨_, _, hitems, ha, hb⟩
      cases hitems
      exact ⟨ha, hb⟩
  all_goals
    simp only [hv]
    exact ⟨fun h => (nomatch h), fun ⟨_, _, h, _⟩ => (nomatch h)⟩

theorem mismatches_pair_eq_nil_iff {first second : Shape}
    (ih₁ : ∀ path v, mismatches path v first = [] ↔ Conforms first v)
    (ih₂ : ∀ path v, mismatches path v second = [] ↔ Conforms second v) :
    mismatches path v (.pair first second) = [] ↔ Conforms (.pair first second) v := by
  cases v with
  | list items =>
      rw [mismatches_pair_of_asSequence? rfl ih₁ ih₂]
      constructor
      · rintro ⟨a, b, rfl, ha, hb⟩
        exact .pairList ha hb
      · intro h
        cases h with
        | pairList ha hb => exact ⟨_, _, rfl, ha, hb⟩
  | tuple items =>
      rw [mismatches_pair_of_asSequence? rfl ih₁ ih₂]
      constructor
      · rintro ⟨a, b, rfl, ha, hb⟩
        exact .pairTuple ha hb
      · intro h
        cases h with
        | pairTuple ha hb => exact ⟨_, _, rfl, ha, hb⟩
  | _ => exact ⟨fun h => (nomatch h), fun h => (nomatch h)⟩

theorem mismatches_mapOf_eq_nil_iff {value : Shape}
    (ih : ∀ path v, mismatches path v value = [] ↔ Conforms value v) :
    mismatches path v (.mapOf value) = [] ↔ Conforms (.mapOf value) v := by
  cases v with
  | dict entries =>
      rw [mismatches, List.flatMap_eq_nil_iff]
      constructor
      · intro h
        refine .map (fun e he => ?_) (fun e he => ?_)
        · obtain ⟨k, x⟩ := e
          cases k with
          | str name => exact ⟨name, rfl⟩
          | _ => cases h _ he
        · obtain ⟨k, x⟩ := e
          cases k with
          | str name => exact (ih _ _).mp (h _ he)
          | _ => cases h _ he
      · intro h e he
        cases h with
        | map hkeys hvalues =>
            obtain ⟨k, x⟩ := e
            obtain ⟨name, rfl⟩ := hkeys _ he
            exact (ih _ _).mpr (hvalues _ he)
  | _ => exact ⟨fun h => (nomatch h), fun h => (nomatch h)⟩

theorem mismatches_record_eq_nil_iff {fields : List Field}
    (ih : ∀ f ∈ fields, ∀ path v, mismatches path v f.shape = [] ↔ Conforms f.shape v) :
    mismatches path v (.record fields) = [] ↔ Conforms (.record fields) v := by
  have hfield {key : Value} {f : Field} (h : Field.ofKey? fields key = some f) : f ∈ fields :=
    List.mem_of_find?_eq_some h
  cases v with
  | dict entries =>
      rw [mismatches, List.append_eq_nil_iff, List.flatMap_eq_nil_iff, List.filterMap_eq_nil_iff]
      simp only [fieldMismatches?_eq, missing?_eq_none_iff]
      constructor
      · rintro ⟨hentries, hmissing⟩
        refine .record (fun e he => ?_) (fun e he f hf => ?_) hmissing
        · have h := hentries e he
          cases hf : Field.ofKey? fields e.1 with
          | none =>
              rw [hf] at h
              cases h
          | some f => rfl
        · have h := hentries e he
          rw [hf] at h
          exact (ih f (hfield hf) _ _).mp h
      · intro h
        cases h with
        | record hkeys hvalues hrequired =>
            refine ⟨fun e he => ?_, hrequired⟩
            obtain ⟨f, hf⟩ := Option.isSome_iff_exists.mp (hkeys e he)
            rw [hf]
            exact (ih f (hfield hf) _ _).mpr (hvalues e he f hf)
  | _ => exact ⟨fun h => (nomatch h), fun h => (nomatch h)⟩

theorem mismatches_oneOf_eq_nil_iff {alternatives : List Shape}
    (ih : ∀ s ∈ alternatives, ∀ path v, mismatches path v s = [] ↔ Conforms s v) :
    mismatches path v (.oneOf alternatives) = [] ↔ Conforms (.oneOf alternatives) v := by
  show chosen _ (attempts path v alternatives) = [] ↔ _
  rw [chosen_eq_nil_iff, attempts_eq_map, conforms_oneOf_iff]
  constructor
  · rintro ⟨attempt, hattempt, hempty⟩
    obtain ⟨s, hs, rfl⟩ := List.mem_map.mp hattempt
    exact ⟨s, hs, (ih s hs path v).mp hempty⟩
  · rintro ⟨s, hs, hv⟩
    exact ⟨_, List.mem_map_of_mem hs, (ih s hs path v).mpr hv⟩

end Parts

/-! ## Mismatches decide conformance -/

/-- A value has no mismatches with a shape exactly if it has the shape. -/
theorem mismatches_eq_nil_iff (s : Shape) (path : String) (v : Value) :
    mismatches path v s = [] ↔ Conforms s v := by
  induction s using Shape.inductionOnParts generalizing path v with
  | str =>
      show mismatchUnless v.asString?.isSome .str path v = [] ↔ _
      rw [mismatchUnless_eq_nil_iff]
      cases v with
      | str s => exact ⟨fun _ => .str s, fun _ => rfl⟩
      | _ => exact ⟨fun h => (nomatch h), fun h => (nomatch h)⟩
  | bool =>
      show mismatchUnless v.asBool?.isSome .bool path v = [] ↔ _
      rw [mismatchUnless_eq_nil_iff]
      cases v with
      | bool b => exact ⟨fun _ => .bool b, fun _ => rfl⟩
      | _ => exact ⟨fun h => (nomatch h), fun h => (nomatch h)⟩
  | null =>
      show mismatchUnless v.isNull .null path v = [] ↔ _
      rw [mismatchUnless_eq_nil_iff]
      cases v with
      | null => exact ⟨fun _ => .null, fun _ => rfl⟩
      | _ => exact ⟨fun h => (nomatch h), fun h => (nomatch h)⟩
  | listOf _ ih => exact mismatches_listOf_eq_nil_iff ih
  | pair _ _ ih₁ ih₂ => exact mismatches_pair_eq_nil_iff ih₁ ih₂
  | mapOf _ ih => exact mismatches_mapOf_eq_nil_iff ih
  | record _ ih => exact mismatches_record_eq_nil_iff ih
  | oneOf _ ih => exact mismatches_oneOf_eq_nil_iff ih

instance (s : Shape) (v : Value) : Decidable (Conforms s v) :=
  decidable_of_iff _ (mismatches_eq_nil_iff s "" v)

end Shape

/-- Whatever the shape, the value and the path, no mismatch is found exactly if the value has the
shape; in particular a scope is valid exactly if its dict has the shape of a manifest. -/
theorem Scope.mismatches_decide_conformance :
    (∀ (s : Shape) (path : String) (v : Value), s.mismatches path v = [] ↔ s.Conforms v) ∧
      ∀ scope : Scope, scope.mismatches = [] ↔ Shape.manifest.Conforms scope.toValue :=
  ⟨Shape.mismatches_eq_nil_iff, fun scope =>
    Shape.mismatches_eq_nil_iff Shape.manifest "" scope.toValue⟩

end DepsManifest
