import DepsManifest.Proofs.Schema.Distinct
/-! # Mismatches are where they are said to be

The path of a mismatch is a text. `Scope.mismatches_located` says that it is the text of a route
into the scope's dict (`ValuePath.along`), and what is there:

  * all steps of the route but perhaps the last also lead through the shape, to a value and the
    shape that is asked of it (`Shape.LeadsTo`);
  * that value violates that shape as the mismatch says (`Shape.Violates`): it is of another kind,
    it has another length, a key that is no string or that no field has, or it lacks a field. The
    last step is there for a violation that is about a key;
  * only of a field that is missing the last step does not exist;
  * no two mismatches have the same path, so each of them can be found again by its path alone.

## Choices

Of a choice that is meant as one of its alternatives, that alternative is the one shape whose kind
the value has (`cases_of_mem_choice`). If the value has the kind of none, the mismatch is with the
choice as a whole. It takes alternatives of different kinds, as they are in the shape of a manifest.

## The way of the proof

By induction over the description of where mismatches come from: a mismatch is located in the value
that it is found in (`locates_of_mem_mismatches`), and a step down to that value is put before its
route. The hypotheses on names and keys are for the last point alone.
-/
namespace DepsManifest

open Value (Step Leads DistinctKeys)
open ValuePath (IsRoot)

/-- The path of what a route leads to from the value at a path. -/
def ValuePath.along (path : String) : List Step → String
  | [] => path
  | .key k :: route => along (Mismatch.keyPath path k) route
  | .index i :: route => along (Mismatch.indexPath path i) route

open ValuePath (along)

namespace Shape

/-- A route leads from a value with a shape to a value inside it and the shape that is asked of
that. -/
inductive LeadsTo : Shape → Value → List Step → Shape → Value → Prop
  | here (s : Shape) (v : Value) : LeadsTo s v [] s v
  | item {item t : Shape} {items : List Value} {i : Nat} {x w : Value} {route : List Step} :
      items[i]? = some x → LeadsTo item x route t w →
      LeadsTo (.listOf item) (.list items) (.index i :: route) t w
  | first {first second t : Shape} {v a b w : Value} {route : List Step} :
      v.asSequence? = some [a, b] → LeadsTo first a route t w →
      LeadsTo (.pair first second) v (.index 0 :: route) t w
  | second {first second t : Shape} {v a b w : Value} {route : List Step} :
      v.asSequence? = some [a, b] → LeadsTo second b route t w →
      LeadsTo (.pair first second) v (.index 1 :: route) t w
  | value {value t : Shape} {entries : List (Value × Value)} {name : String} {x w : Value}
      {route : List Step} : (.str name, x) ∈ entries → LeadsTo value x route t w →
      LeadsTo (.mapOf value) (.dict entries) (.key (.str name) :: route) t w
  | field {fields : List Field} {f : Field} {t : Shape} {entries : List (Value × Value)}
      {x w : Value} {route : List Step} :
      f ∈ fields → (.str f.name, x) ∈ entries → LeadsTo f.shape x route t w →
      LeadsTo (.record fields) (.dict entries) (.key (.str f.name) :: route) t w
  | alternative {alternatives : List Shape} {s t : Shape} {v w : Value} {route : List Step} :
      alternatives.filter (acceptsKind v) = [s] → LeadsTo s v route t w →
      LeadsTo (.oneOf alternatives) v route t w

/-- A value violates a shape as a mismatch says. The mismatch is about the value, or about a key of
it. -/
inductive Violates : Shape → Value → List Step → Mismatch → Prop
  | kind {s : Shape} {v : Value} {path : String} : acceptsKind v s = false →
      Violates s v [] ⟨.typeMismatch, path, s.description, Mismatch.describe v⟩
  | length {first second : Shape} {v : Value} {items : List Value} {path : String} :
      v.asSequence? = some items → items.length ≠ 2 →
      Violates (.pair first second) v []
        ⟨.lengthMismatch, path, (Shape.pair first second).description ++ " (2 elements)",
          String.ofList (Text.decimal items.length) ++ " elements"⟩
  | key {value : Shape} {entries : List (Value × Value)} {k x : Value} {path : String} :
      (k, x) ∈ entries → (∀ name, k ≠ .str name) →
      Violates (.mapOf value) (.dict entries) [.key k]
        ⟨.typeMismatch, path, "str key", Mismatch.describe k⟩
  | unknown {fields : List Field} {entries : List (Value × Value)} {k x : Value} {path : String} :
      (k, x) ∈ entries → (∀ f ∈ fields, k ≠ .str f.name) →
      Violates (.record fields) (.dict entries) [.key k]
        ⟨.unknownKey, path, "a known key", k.repr⟩
  | missing {fields : List Field} {f : Field} {entries : List (Value × Value)} {path : String} :
      f ∈ fields → f.isRequired = true → (∀ x, (.str f.name, x) ∉ entries) →
      Violates (.record fields) (.dict entries) [.key (.str f.name)]
        ⟨.missingKey, path, f.shape.description, "nothing"⟩

/-- A mismatch stands at the end of a route into a value with a shape, and is a violation there. -/
def Locates (s : Shape) (path : String) (v : Value) (m : Mismatch) : Prop :=
  ∃ route t w last,
    s.LeadsTo v route t w ∧ t.Violates w last m ∧ m.path = along path (route ++ last)

variable {path : String} {s : Shape} {v : Value} {m : Mismatch}

/-! ## Routes through shapes are routes -/

theorem LeadsTo.leads {t : Shape} {w : Value} {route : List Step} (h : s.LeadsTo v route t w) :
    v.Leads route w := by
  induction h with
  | here s v => exact .here v
  | item hx _ ih => exact .step (Value.mem_indexed_iff.mpr ⟨_, rfl, hx⟩) ih
  | first hv _ ih =>
      refine .step ?_ ih
      rw [Value.parts_of_asSequence? hv]
      exact Value.mem_indexed_iff.mpr ⟨0, rfl, rfl⟩
  | second hv _ ih =>
      refine .step ?_ ih
      rw [Value.parts_of_asSequence? hv]
      exact Value.mem_indexed_iff.mpr ⟨1, rfl, rfl⟩
  | value hx _ ih => exact .step (Value.mem_parts_dict_iff.mpr ⟨_, rfl, hx⟩) ih
  | field _ hx _ ih => exact .step (Value.mem_parts_dict_iff.mpr ⟨_, rfl, hx⟩) ih
  | alternative _ _ ih => exact ih

theorem Violates.exists_leads {last : List Step} (h : s.Violates v last m)
    (hkind : m.kind ≠ .missingKey) : ∃ x, v.Leads last x := by
  cases h with
  | kind _ => exact ⟨v, .here v⟩
  | length _ _ => exact ⟨v, .here v⟩
  | key hx _ => exact ⟨_, .step (Value.mem_parts_dict_iff.mpr ⟨_, rfl, hx⟩) (.here _)⟩
  | unknown hx _ => exact ⟨_, .step (Value.mem_parts_dict_iff.mpr ⟨_, rfl, hx⟩) (.here _)⟩
  | missing _ _ _ => exact absurd rfl hkind

/-! ## Every mismatch is located -/

theorem Violates.locates (h : s.Violates v [] m) (hpath : m.path = path) : s.Locates path v m :=
  ⟨[], s, v, [], .here s v, h, hpath⟩

theorem Violates.locates_key {k : Value} (h : s.Violates v [.key k] m)
    (hpath : m.path = Mismatch.keyPath path k) : s.Locates path v m :=
  ⟨[], s, v, [.key k], .here s v, h, hpath⟩

theorem locates_of_mem_mismatchUnless {fits : Bool} (hkind : acceptsKind v s = fits)
    (h : m ∈ mismatchUnless fits s path v) : s.Locates path v m := by
  rw [mismatchUnless] at h
  split at h
  · cases h
  · rename_i hnot
    cases List.mem_singleton.mp h
    rw [Bool.not_eq_true] at hnot
    exact (Violates.kind (hkind.trans hnot)).locates rfl

theorem locates_of_mem_singleton (hkind : acceptsKind v s = false)
    (h : m ∈ [typeMismatch s path v]) : s.Locates path v m := by
  cases List.mem_singleton.mp h
  exact (Violates.kind hkind).locates rfl

theorem ofKey?_eq_some {fields : List Field} {k : Value} {f : Field}
    (h : Field.ofKey? fields k = some f) : f ∈ fields ∧ k = .str f.name := by
  have hname := List.find?_some h
  exact ⟨List.mem_of_find?_eq_some h, Value.asString?_eq_some.mp (eq_of_beq hname)⟩

theorem ofKey?_eq_none {fields : List Field} {k : Value} (h : Field.ofKey? fields k = none) :
    ∀ f ∈ fields, k ≠ .str f.name := by
  rintro f hf rfl
  exact List.find?_eq_none.mp h f hf (beq_self_eq_true _)

theorem anyAcceptsKind_eq_any (v : Value) (alternatives : List Shape) :
    anyAcceptsKind v alternatives = alternatives.any (acceptsKind v) := by
  induction alternatives with
  | nil => rfl
  | cons s alternatives ih => exact congrArg (acceptsKind v s || ·) ih

/-- A mismatch with a choice is one with the only alternative whose kind the value has, or the value
has the kind of none. -/
theorem cases_of_mem_choice {alternatives : List Shape}
    (hdisjoint :
      alternatives.Pairwise fun s t => ¬(acceptsKind v s = true ∧ acceptsKind v t = true))
    (h : m ∈ mismatches path v (.oneOf alternatives)) :
    (∃ s, alternatives.filter (acceptsKind v) = [s] ∧ m ∈ mismatches path v s) ∨
      acceptsKind v (.oneOf alternatives) = false ∧
        m = typeMismatch (.oneOf alternatives) path v := by
  have hcandidates : (attempts path v alternatives).filter (·.1) =
      (alternatives.filter (acceptsKind v)).map fun s =>
        (acceptsKind v s, mismatches path v s) := by
    rw [attempts_eq_map, List.filter_map]
    rfl
  have hpairwise := hdisjoint.filter (acceptsKind v)
  have haccepts : ∀ s ∈ alternatives.filter (acceptsKind v), acceptsKind v s = true :=
    fun s hs => (List.mem_filter.mp hs).2
  rw [mismatches, chosen] at h
  split at h
  · cases h
  · rw [hcandidates] at h
    rcases hfiltered : alternatives.filter (acceptsKind v) with _ | ⟨s, _ | ⟨t, rest⟩⟩
    · rw [hfiltered] at h
      refine .inr ⟨?_, List.mem_singleton.mp h⟩
      rw [acceptsKind, anyAcceptsKind_eq_any, List.any_eq_false]
      exact fun s hs hkind => List.not_mem_nil (hfiltered ▸ List.mem_filter.mpr ⟨hs, hkind⟩)
    · rw [hfiltered] at h
      exact .inl ⟨s, rfl, h⟩
    · rw [hfiltered] at hpairwise haccepts
      obtain ⟨hs, hrest⟩ := List.forall_mem_cons.mp haccepts
      exact absurd ⟨hs, hrest t List.mem_cons_self⟩
        (List.rel_of_pairwise_cons hpairwise List.mem_cons_self)

/-- Every mismatch with an unambiguous shape is located. -/
theorem locates_of_mem_mismatches (hs : s.Unambiguous) (h : m ∈ mismatches path v s) :
    s.Locates path v m := by
  induction hs generalizing path v m with
  | str => exact locates_of_mem_mismatchUnless rfl h
  | bool => exact locates_of_mem_mismatchUnless rfl h
  | null => exact locates_of_mem_mismatchUnless rfl h
  | listOf _ ih =>
      cases v with
      | list items =>
          obtain ⟨⟨x, i⟩, hx, hm⟩ := List.mem_flatMap.mp h
          obtain ⟨route, t, w, last, hroute, hviolates, hpath⟩ := ih hm
          exact ⟨_, t, w, last, .item (List.mem_zipIdx_iff_getElem?.mp hx) hroute, hviolates, hpath⟩
      | _ => exact locates_of_mem_singleton rfl h
  | pair _ _ ih₁ ih₂ =>
      rw [mismatches] at h
      split at h
      · rename_i a b hitems
        rcases List.mem_append.mp h with hm | hm
        · obtain ⟨route, t, w, last, hroute, hviolates, hpath⟩ := ih₁ hm
          exact ⟨_, t, w, last, .first hitems hroute, hviolates, hpath⟩
        · obtain ⟨route, t, w, last, hroute, hviolates, hpath⟩ := ih₂ hm
          exact ⟨_, t, w, last, .second hitems hroute, hviolates, hpath⟩
      · rename_i items hnot hitems
        cases List.mem_singleton.mp h
        refine (Violates.length hitems fun hlength => ?_).locates rfl
        obtain ⟨a, b, rfl⟩ := List.length_eq_two.mp hlength
        exact hnot a b rfl
      · rename_i hnone
        refine locates_of_mem_singleton ?_ h
        rw [acceptsKind, hnone]
        rfl
  | mapOf _ ih =>
      cases v with
      | dict entries =>
          rw [mismatches_mapOf_dict] at h
          obtain ⟨⟨k, x⟩, he, hm⟩ := List.mem_flatMap.mp h
          rw [valueMismatches] at hm
          split at hm
          · rename_i name hk
            cases hk
            obtain ⟨route, t, w, last, hroute, hviolates, hpath⟩ := ih hm
            exact ⟨_, t, w, last, .value he hroute, hviolates, hpath⟩
          · rename_i hnot
            cases List.mem_singleton.mp hm
            exact (Violates.key he hnot).locates_key rfl
      | _ => exact locates_of_mem_singleton rfl h
  | record _ _ ih =>
      cases v with
      | dict entries =>
          rw [mismatches_record_dict] at h
          rcases List.mem_append.mp h with hm | hm
          · obtain ⟨⟨k, x⟩, he, hm⟩ := List.mem_flatMap.mp hm
            rw [entryMismatches] at hm
            split at hm
            · rename_i f hf
              obtain ⟨hmem, hk⟩ := ofKey?_eq_some hf
              cases hk
              obtain ⟨route, t, w, last, hroute, hviolates, hpath⟩ := ih f hmem hm
              exact ⟨_, t, w, last, .field hmem he hroute, hviolates, hpath⟩
            · rename_i hnone
              cases List.mem_singleton.mp hm
              exact (Violates.unknown he (ofKey?_eq_none hnone)).locates_key rfl
          · obtain ⟨f, hf, hmissing⟩ := List.mem_filterMap.mp hm
            obtain ⟨hrequired, habsent, rfl⟩ := missing?_eq_some_iff.mp hmissing
            exact (Violates.missing hf hrequired habsent).locates_key rfl
      | _ => exact locates_of_mem_singleton rfl h
  | oneOf hdisjoint _ ih =>
      obtain ⟨s, hone, hm⟩ | ⟨hkind, rfl⟩ := cases_of_mem_choice (hdisjoint v) h
      · have hmem : s ∈ List.filter (acceptsKind v) _ := hone ▸ List.mem_singleton_self s
        obtain ⟨route, t, w, last, hroute, hviolates, hpath⟩ := ih s (List.mem_filter.mp hmem).1 hm
        exact ⟨route, t, w, last, .alternative hone hroute, hviolates, hpath⟩
      · exact (Violates.kind hkind).locates rfl

end Shape

namespace Scope

/-- Every mismatch of a scope has the path of a route into the scope's dict, and a value there
violates what the shape of a manifest asks of it, as the mismatch says; only of a field that is
missing the last step does not exist. No two mismatches have one path. This holds for names without
brackets, as all identifiers are, and if no dict holds a key twice, in particular if all values are
well keyed. -/
theorem mismatches_located {s : Scope} (hnames : ∀ name, s.contains name = true → IsRoot name)
    (hkeys : s.Binds DistinctKeys) :
    (∀ m ∈ s.mismatches, ∃ route t w last, Shape.manifest.LeadsTo s.toValue route t w ∧
      s.toValue.Leads route w ∧ t.Violates w last m ∧ m.path = along "" (route ++ last) ∧
      (m.kind ≠ .missingKey → ∃ x, s.toValue.Leads (route ++ last) x)) ∧
    (s.mismatches.map (·.path)).Nodup := by
  refine ⟨fun m hm => ?_, nodup_paths hnames hkeys⟩
  obtain ⟨route, t, w, last, hroute, hviolates, hpath⟩ :=
    Shape.locates_of_mem_mismatches Shape.unambiguous_manifest hm
  refine ⟨route, t, w, last, hroute, hroute.leads, hviolates, hpath, fun hkind => ?_⟩
  obtain ⟨x, hx⟩ := hviolates.exists_leads hkind
  exact ⟨x, hroute.leads.append hx⟩

/-- A dependency with an unknown field and without its own, under a name with a quote and a bracket,
and a variable without a name. -/
def strayScope : Scope := ⟨⟨[
  ("deps", ⟨.dict [(.str "a\"]", .dict [(.str "urls", .str "x")])], some 1⟩),
  ("vars", ⟨.dict [(.null, .str "x")], some 2⟩)], by decide⟩⟩

theorem mismatches_located_stray : strayScope.mismatches.map (fun m => (m.kind, m.path)) =
      [(.unknownKey, "deps[\"a\\\"]\"][\"urls\"]"), (.missingKey, "deps[\"a\\\"]\"][\"url\"]"),
        (.typeMismatch, "vars[None]")] ∧
    (strayScope.mismatches.map (·.path)).Nodup := by
  have hroots : ∀ e ∈ strayScope.bindings.entries, e.1 ≠ "" ∧ '[' ∉ e.1.toList := by decide
  have hsingle {k v : Value} (hv : DistinctKeys v) : DistinctKeys (.dict [(k, v)]) :=
    .dict (List.nodup_singleton k) (List.forall_mem_singleton.mpr hv)
  have hvalues : ∀ e ∈ strayScope.bindings.entries, DistinctKeys e.2.value :=
    List.forall_mem_cons.mpr
      ⟨hsingle (hsingle (.str "x")), List.forall_mem_singleton.mpr (hsingle (.str "x"))⟩
  refine ⟨by decide +kernel, (mismatches_located (fun name hname => ?_) fun name v hv => ?_).2⟩
  · obtain ⟨b, hb⟩ := Option.isSome_iff_exists.mp hname
    have hroot := hroots _ (NameMap.mem_entries_iff.mpr hb)
    exact ⟨hroot.1, hroot.2⟩
  · obtain ⟨b, hb, rfl⟩ := Option.map_eq_some_iff.mp hv
    exact hvalues _ (NameMap.mem_entries_iff.mpr hb)

end Scope

end DepsManifest
