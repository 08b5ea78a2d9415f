import DepsManifest.Proofs.Scope
import DepsManifest.Proofs.Schema.Manifest
/-! # Paths of mismatches

`Shape.Reports` says which mismatches a value with a shape can have, however deep they lie and
whatever alternative they come from (`Shape.reports_of_mem_mismatches`). It has one constructor for
each place where the program makes a mismatch, and one for each kind of part that it comes from. A
property of all mismatches is then an induction over it, and no proof goes through the loops again.

The first such property is that each mismatch is below the path of the value
(`Shape.Reports.path_below`). For scopes:

  * a manifest as a whole has no mismatch, since no name is required of it (`Scope.mismatches_eq`);
  * so each mismatch is below a name that is bound (`Scope.exists_below_of_mem_mismatches`);
  * and that name is the part of its path before the first bracket, if the name is not empty and has
    no bracket (`ValuePath.rootKey_eq`).

The empty path is left out in all of this. It is the path of the scope as a whole, and a step from
it is written without a bracket.
-/
namespace DepsManifest

namespace ValuePath

/-- A path goes on from another by steps in brackets. -/
inductive Below (base : String) : String → Prop
  | here : Below base base
  | step {path : String} (s : String) : Below base path → Below base (path ++ "[" ++ s ++ "]")

/-- A name that a path can begin with: it is not empty, and has no bracket. -/
structure IsRoot (name : String) : Prop where
  ne_empty : name ≠ ""
  no_bracket : '[' ∉ name.toList

variable {base name path path' : String}

theorem Below.trans (h : Below base path) (h' : Below path path') : Below base path' := by
  induction h' with
  | here => exact h
  | step s _ ih => exact ih.step s

theorem Below.ne_empty (h : Below base path) (hbase : base ≠ "") : path ≠ "" := by
  cases h with
  | here => exact hbase
  | step s _ =>
      intro hempty
      have hlength := congrArg String.length hempty
      simp at hlength

theorem Below.exists_append (h : Below base path) : ∃ rest, path.toList = base.toList ++ rest ∧
    ∀ c ∈ rest.head?, c = '[' := by
  induction h with
  | here => exact ⟨[], (List.append_nil _).symm, nofun⟩
  | step s _ ih =>
      obtain ⟨rest, heq, hhead⟩ := ih
      refine ⟨rest ++ '[' :: s.toList ++ [']'], by simp [heq], ?_⟩
      cases rest with
      | nil =>
          rintro _ ⟨⟩
          rfl
      | cons c rest => exact hhead

theorem takeWhile_eq (h : Below name path) (hname : IsRoot name) :
    String.ofList (path.toList.takeWhile (· ≠ '[')) = name := by
  obtain ⟨rest, heq, hhead⟩ := h.exists_append
  have hplain : ∀ c ∈ name.toList, decide (c ≠ '[') = true := by
    intro c hc
    rw [decide_eq_true_iff]
    rintro rfl
    exact hname.no_bracket hc
  rw [heq, Text.takeWhile_append_eq hplain, String.ofList_toList]
  intro c hc
  rw [hhead c hc]
  rfl

/-- A path begins with one name only. -/
theorem Below.unique {other : String} (h : Below name path) (h' : Below other path)
    (hname : IsRoot name) (hother : IsRoot other) : other = name := by
  rw [← takeWhile_eq h hname, takeWhile_eq h' hother]

theorem rootKey_eq {m : Mismatch} (h : Below name m.path) (hname : IsRoot name) :
    m.rootKey = name :=
  takeWhile_eq h hname

/-! ## Steps -/

theorem below_keyPath (hpath : path ≠ "") (key : Value) :
    Below path (Mismatch.keyPath path key) := by
  cases key with
  | str s =>
      rw [Mismatch.keyPath, if_neg hpath]
      exact Below.here.step _
  | _ => exact Below.here.step _

theorem below_indexPath (index : Nat) : Below path (Mismatch.indexPath path index) :=
  Below.here.step _

end ValuePath

open ValuePath

namespace Shape

/-! ## Mismatches by the part of the value -/

/-- The mismatches that a record finds in an entry. -/
def entryMismatches (path : String) (fields : List Field) (e : Value × Value) : List Mismatch :=
  match Field.ofKey? fields e.1 with
  | some f => mismatches (Mismatch.keyPath path e.1) e.2 f.shape
  | none => [⟨.unknownKey, Mismatch.keyPath path e.1, "a known key", e.1.repr⟩]

/-- The mismatches that a dict with arbitrary string keys finds in an entry. -/
def valueMismatches (path : String) (value : Shape) (e : Value × Value) : List Mismatch :=
  match e.1 with
  | .str _ => mismatches (Mismatch.keyPath path e.1) e.2 value
  | k => [⟨.typeMismatch, Mismatch.keyPath path k, "str key", Mismatch.describe k⟩]

theorem mismatches_record_dict (path : String) (fields : List Field)
    (entries : List (Value × Value)) : mismatches path (.dict entries) (.record fields) =
      entries.flatMap (entryMismatches path fields)
        ++ fields.filterMap (missing? path ⟨entries⟩) := by
  rw [mismatches]
  refine congrArg (· ++ _) (List.flatMap_congr fun e _ => ?_)
  dsimp only
  rw [fieldMismatches?_eq, entryMismatches]
  cases Field.ofKey? fields e.1 with
  | none => rfl
  | some f => rfl

theorem mismatches_mapOf_dict (path : String) (value : Shape) (entries : List (Value × Value)) :
    mismatches path (.dict entries) (.mapOf value) =
      entries.flatMap (valueMismatches path value) := by
  rw [mismatches]
  rfl

/-! ## Where mismatches come from -/

/-- `s.Reports path m`: the mismatch can be one of a value at the path with the shape. It is about
the value as a whole, about one of its entries, or it comes from a part of the shape. -/
inductive Reports : Shape → String → Mismatch → Prop
  | whole {s : Shape} {path : String} (v : Value) : Reports s path (typeMismatch s path v)
  | length {first second : Shape} {path : String} (n : Nat) : Reports (.pair first second) path
      ⟨.lengthMismatch, path, (Shape.pair first second).description ++ " (2 elements)",
        String.ofList (Text.decimal n) ++ " elements"⟩
  | key {value : Shape} {path : String} (k : Value) : Reports (.mapOf value) path
      ⟨.typeMismatch, Mismatch.keyPath path k, "str key", Mismatch.describe k⟩
  | unknown {fields : List Field} {path : String} (k : Value) : Reports (.record fields) path
      ⟨.unknownKey, Mismatch.keyPath path k, "a known key", k.repr⟩
  | missing {fields : List Field} {path : String} {f : Field} :
      f ∈ fields → Reports (.record fields) path
      ⟨.missingKey, Mismatch.keyPath path (.str f.name), f.shape.description, "nothing"⟩
  | item {item : Shape} {path : String} {m : Mismatch} (i : Nat) :
      Reports item (Mismatch.indexPath path i) m → Reports (.listOf item) path m
  | first {first second : Shape} {path : String} {m : Mismatch} :
      Reports first (Mismatch.indexPath path 0) m → Reports (.pair first second) path m
  | second {first second : Shape} {path : String} {m : Mismatch} :
      Reports second (Mismatch.indexPath path 1) m → Reports (.pair first second) path m
  | value {value : Shape} {path : String} {m : Mismatch} (k : Value) :
      Reports value (Mismatch.keyPath path k) m → Reports (.mapOf value) path m
  | field {fields : List Field} {f : Field} {path : String} {m : Mismatch} (k : Value) :
      f ∈ fields → Reports f.shape (Mismatch.keyPath path k) m → Reports (.record fields) path m
  | alternative {alternatives : List Shape} {s : Shape} {path : String} {m : Mismatch} :
      s ∈ alternatives → Reports s path m → Reports (.oneOf alternatives) path m

section Parts

variable {path : String} {v : Value} {m : Mismatch}

theorem reports_of_mem_mismatchUnless {fits : Bool} {s : Shape}
    (h : m ∈ mismatchUnless fits s path v) : s.Reports path m := by
  rw [mismatchUnless] at h
  split at h
  · cases h
  · cases List.mem_singleton.mp h
    exact .whole v

theorem chosen_cases (whole : Mismatch) (attempts : List (Bool × List Mismatch)) :
    chosen whole attempts = [] ∨ chosen whole attempts = [whole] ∨
      ∃ attempt ∈ attempts, chosen whole attempts = attempt.2 := by
  unfold chosen
  split
  · exact .inl rfl
  · split
    · rename_i kind found hcandidates
      have hmem : (kind, found) ∈ attempts.filter (·.1) := by
        rw [hcandidates]
        exact List.mem_singleton_self _
      exact .inr (.inr ⟨_, (List.mem_filter.mp hmem).1, rfl⟩)
    · exact .inr (.inl rfl)

theorem missing?_eq_some_iff {entries : List (Value × Value)} {f : Field} :
    missing? path ⟨entries⟩ f = some m ↔ f.isRequired = true ∧ (∀ v, (.str f.name, v) ∉ entries) ∧
      m = ⟨.missingKey, Mismatch.keyPath path (.str f.name), f.shape.description, "nothing"⟩ := by
  have hfound : ((⟨entries⟩ : Dict).getString? f.name).isNone = true ↔
      ∀ v, (.str f.name, v) ∉ entries := by
    rw [Option.isNone_iff_eq_none, ← Option.not_isSome_iff_eq_none, Dict.isSome_getString?,
      not_exists]
  rw [missing?, ← hfound, ← and_assoc, ← Bool.and_eq_true]
  split
  · rename_i hmissing
    exact ⟨fun h => ⟨hmissing, (Option.some.inj h).symm⟩, fun h => congrArg some h.2.symm⟩
  · rename_i hpresent
    constructor
    · intro h
      cases h
    · exact fun h => absurd h.1 hpresent

theorem reports_of_mem_entryMismatches {fields : List Field} {e : Value × Value}
    (ih : ∀ f ∈ fields, ∀ path v, ∀ m ∈ mismatches path v f.shape, f.shape.Reports path m)
    (h : m ∈ entryMismatches path fields e) : (record fields).Reports path m := by
  rw [entryMismatches] at h
  split at h
  · rename_i f hf
    have hmem : f ∈ fields := List.mem_of_find?_eq_some hf
    exact .field e.1 hmem (ih f hmem _ e.2 m h)
  · cases List.mem_singleton.mp h
    exact .unknown e.1

end Parts

/-- Every mismatch comes from the shape that a value is held against, or from a part of it. -/
theorem reports_of_mem_mismatches (s : Shape) {path : String} {v : Value} {m : Mismatch}
    (h : m ∈ mismatches path v s) : s.Reports path m := by
  induction s using Shape.inductionOnParts generalizing path v m with
  | str => exact reports_of_mem_mismatchUnless h
  | bool => exact reports_of_mem_mismatchUnless h
  | null => exact reports_of_mem_mismatchUnless h
  | listOf item ih =>
      cases v with
      | list items =>
          obtain ⟨⟨x, i⟩, -, hm⟩ := List.mem_flatMap.mp h
          exact .item i (ih hm)
      | _ =>
          cases List.mem_singleton.mp h
          exact .whole _
  | pair first second ih₁ ih₂ =>
      rw [mismatches] at h
      split at h
      · rcases List.mem_append.mp h with hm | hm
        · exact .first (ih₁ hm)
        · exact .second (ih₂ hm)
      · cases List.mem_singleton.mp h
        exact .length _
      · cases List.mem_singleton.mp h
        exact .whole v
  | mapOf value ih =>
      cases v with
      | dict entries =>
          rw [mismatches_mapOf_dict] at h
          obtain ⟨e, -, hm⟩ := List.mem_flatMap.mp h
          rw [valueMismatches] at hm
          split at hm
          · exact .value e.1 (ih hm)
          · cases List.mem_singleton.mp hm
            exact .key e.1
      | _ =>
          cases List.mem_singleton.mp h
          exact .whole _
  | record fields ih =>
      cases v with
      | dict entries =>
          rw [mismatches_record_dict] at h
          rcases List.mem_append.mp h with hm | hm
          · obtain ⟨e, -, hentry⟩ := List.mem_flatMap.mp hm
            exact reports_of_mem_entryMismatches (fun f hf path v m hm => ih f hf hm) hentry
          · obtain ⟨f, hf, hmissing⟩ := List.mem_filterMap.mp hm
            obtain ⟨-, -, rfl⟩ := missing?_eq_some_iff.mp hmissing
            exact .missing hf
      | _ =>
          cases List.mem_singleton.mp h
          exact .whole _
  | oneOf alternatives ih =>
      rw [mismatches, attempts_eq_map] at h
      rcases chosen_cases _ _ with hnone | hwhole | ⟨attempt, hattempt, hkept⟩
      · rw [hnone] at h
        cases h
      · rw [hwhole] at h
        cases List.mem_singleton.mp h
        exact .whole v
      · rw [hkept] at h
        obtain ⟨s, hs, rfl⟩ := List.mem_map.mp hattempt
        exact .alternative hs (ih s hs h)

/-- Every mismatch is below the path of the value that it is found in. -/
theorem Reports.path_below {s : Shape} {path : String} {m : Mismatch} (h : s.Reports path m)
    (hpath : path ≠ "") : Below path m.path := by
  have hindex : ∀ path i, Below path (Mismatch.indexPath path i) := fun _ i => below_indexPath i
  have hkey : ∀ path k, path ≠ "" → Below path (Mismatch.keyPath path k) :=
    fun _ k hpath => below_keyPath hpath k
  induction h with
  | whole v => exact .here
  | length n => exact .here
  | key k => exact hkey _ k hpath
  | unknown k => exact hkey _ k hpath
  | missing _ => exact hkey _ (.str _) hpath
  | item i _ ih => exact (hindex _ i).trans (ih ((hindex _ i).ne_empty hpath))
  | first _ ih => exact (hindex _ 0).trans (ih ((hindex _ 0).ne_empty hpath))
  | second _ ih => exact (hindex _ 1).trans (ih ((hindex _ 1).ne_empty hpath))
  | value k _ ih => exact (hkey _ k hpath).trans (ih ((hkey _ k hpath).ne_empty hpath))
  | field k _ _ ih => exact (hkey _ k hpath).trans (ih ((hkey _ k hpath).ne_empty hpath))
  | alternative _ _ ih => exact ih hpath

end Shape

namespace Scope

variable {s : Scope} {m : Mismatch}

/-- A mismatch of a scope is a bound name that no manifest has, or it comes from the shape that the
name has in a manifest. -/
inductive Reports (s : Scope) : String → Mismatch → Prop
  | unknown {name : String} : s.contains name = true →
      Reports s name ⟨.unknownKey, name, "a known key", (Value.str name).repr⟩
  | field {name : String} {f : Field} {m : Mismatch} : s.contains name = true →
      f ∈ Shape.manifestFields → f.shape.Reports name m → Reports s name m

theorem contains_of_mem_pairs {e : String × Value} (h : e ∈ s.pairs) : s.contains e.1 = true := by
  obtain ⟨b, hb, -⟩ := Option.map_eq_some_iff.mp (mem_pairs_iff.mp h)
  rw [contains, NameMap.contains, hb]
  rfl

theorem keyPath_top (name : String) : Mismatch.keyPath "" (.str name) = name := by
  rw [Mismatch.keyPath, if_pos rfl]

/-- The mismatches of a scope are those of its names, since no name is required. -/
theorem mismatches_eq (s : Scope) : s.mismatches =
    s.pairs.flatMap fun e => Shape.entryMismatches "" Shape.manifestFields (.str e.1, e.2) := by
  have hnone : Shape.manifestFields.filterMap (Shape.missing? "" ⟨stringKeyed s.pairs⟩) = [] := by
    have hrequired : ∀ f ∈ Shape.manifestFields, f.isRequired = false := by decide
    refine List.filterMap_eq_nil_iff.mpr fun f hf => ?_
    rw [Shape.missing?_eq_none_iff, hrequired f hf]
    intro h
    cases h
  rw [mismatches, toValue_eq, Shape.manifest_eq, Shape.mismatches_record_dict, hnone,
    List.append_nil, stringKeyed, List.flatMap_map]

theorem exists_reports_of_mem_mismatches (h : m ∈ s.mismatches) : ∃ name, s.Reports name m := by
  rw [mismatches_eq] at h
  obtain ⟨⟨name, v⟩, he, hentry⟩ := List.mem_flatMap.mp h
  have hbound := contains_of_mem_pairs he
  rw [Shape.entryMismatches, keyPath_top] at hentry
  refine ⟨name, ?_⟩
  split at hentry
  · rename_i f hf
    exact .field hbound (List.mem_of_find?_eq_some hf) (f.shape.reports_of_mem_mismatches hentry)
  · cases List.mem_singleton.mp hentry
    exact .unknown hbound

theorem exists_below_of_mem_mismatches (hnames : ∀ name, s.contains name = true → name ≠ "")
    (h : m ∈ s.mismatches) : ∃ name, s.contains name = true ∧ Below name m.path := by
  obtain ⟨name, hreports⟩ := exists_reports_of_mem_mismatches h
  cases hreports with
  | unknown hbound => exact ⟨name, hbound, .here⟩
  | field hbound _ hfield => exact ⟨name, hbound, hfield.path_below (hnames name hbound)⟩

end Scope

end DepsManifest
