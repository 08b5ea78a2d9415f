import DepsManifest.Proofs.Schema.Paths
import DepsManifest.Proofs.Text.Quoted
import DepsManifest.Proofs.Value.Route
import DepsManifest.Proofs.Value.Unambiguous
/-! # No two mismatches have one path

The mismatches of a scope have distinct paths (`Scope.nodup_paths`), so each of them can be named by
its path. Two hypotheses are there, and both hold of every scope that a text gives:

  * the names that are bound are told apart from paths: they are not empty and have no bracket;
  * no dict holds a key twice.

## Steps end where they end

A path writes strings with quotes and escapes, other keys as they are printed, and indices as
numbers. Each of them ends before its bracket, whatever it holds (`keyText_append_inj`), so that two
different steps from one path lead to paths that have nothing below them in common (`Apart`). Since
the mismatches that are found in a part of a value are below the path of the part, those of
different parts have different paths (`nodup_flatMap`).

## The induction

It is on the shape (`Shape.nodup_paths`). A choice adds nothing: it keeps the mismatches with one
alternative, or has one of its own (`nodup_chosen`). A record adds what is missing, at paths of
fields that no entry has. What the induction asks of the shape is that no record names a field
twice, and that of a choice no value is of the kind of two alternatives (`Shape.Unambiguous`); the
shape of a manifest is such a one.
-/
namespace DepsManifest

open Value (DistinctKeys)

namespace ValuePath

/-! ## Steps end where they end -/

/-- A key as a path writes it. -/
def keyText : Value → String
  | .str s => Text.quoted s
  | k => k.repr

theorem keyPath_eq {path : String} (hpath : path ≠ "") (k : Value) :
    Mismatch.keyPath path k = path ++ "[" ++ keyText k ++ "]" := by
  cases k with
  | str s => rw [Mismatch.keyPath, if_neg hpath, keyText]
  | _ => rfl

theorem literal_append_ne_quote {k : Value} (hk : ∀ s, k ≠ .str s) (r r' : List Char) :
    k.literal ++ r ≠ '"' :: r' := by
  refine Value.literal_append_ne_of_type? (fun htype => ?_) r r'
  have hstring : "str" = k.typeName := Option.some.inj htype
  cases k with
  | str s => exact hk s rfl
  | _ => simp [Value.typeName] at hstring

theorem toList_keyText {k : Value} (hk : ∀ s, k ≠ .str s) : (keyText k).toList = k.literal := by
  cases k with
  | str s => exact absurd rfl (hk s)
  | _ => exact String.toList_ofList

/-- The text of a key can be taken off the beginning of what stands before a closing bracket. -/
theorem keyText_append_inj {k k' : Value} {r r' : List Char}
    (h : (keyText k).toList ++ ']' :: r = (keyText k').toList ++ ']' :: r') : k = k' := by
  have hquoted : ∀ s : String, (keyText (.str s)).toList = Text.quotedBy '"' s.toList :=
    fun _ => String.toList_ofList
  have hkind : ∀ k : Value, (∃ s, k = .str s) ∨ ∀ s, k ≠ .str s := by
    intro k
    cases k with
    | str s => exact .inl ⟨s, rfl⟩
    | _ => exact .inr nofun
  rcases hkind k with ⟨s, rfl⟩ | hk
  · rcases hkind k' with ⟨t, rfl⟩ | hk'
    · rw [hquoted, hquoted] at h
      exact congrArg Value.str (String.toList_injective (Text.quotedBy_append_inj h).1)
    · rw [hquoted, toList_keyText hk'] at h
      exact absurd h.symm (literal_append_ne_quote hk' _ _)
  · rcases hkind k' with ⟨t, rfl⟩ | hk'
    · rw [hquoted, toList_keyText hk] at h
      exact absurd h (literal_append_ne_quote hk _ _)
    · rw [toList_keyText hk, toList_keyText hk'] at h
      have hends : ∀ q, Ends (']' :: q) := ends_cons (by decide)
      exact (Value.detachable_literal k k' (hends r) (hends r') h).1

/-! ## Paths with nothing below them in common -/

/-- No path goes on from both. -/
def Apart (base other : String) : Prop := ∀ path, Below base path → ¬ Below other path

variable {path : String}

theorem apart_step {a b : String}
    (h : ∀ r r', a.toList ++ ']' :: r ≠ b.toList ++ ']' :: r') :
    Apart (path ++ "[" ++ a ++ "]") (path ++ "[" ++ b ++ "]") := by
  intro below ha hb
  obtain ⟨r, hr, -⟩ := ha.exists_append
  obtain ⟨r', hr', -⟩ := hb.exists_append
  rw [hr] at hr'
  simp only [String.toList_append, List.append_assoc, List.append_cancel_left_eq] at hr'
  exact h r r' hr'

theorem apart_keyPath (hpath : path ≠ "") {k k' : Value} (h : k ≠ k') :
    Apart (Mismatch.keyPath path k) (Mismatch.keyPath path k') := by
  rw [keyPath_eq hpath, keyPath_eq hpath]
  exact apart_step fun r r' heq => h (keyText_append_inj heq)

theorem apart_indexPath {i j : Nat} (h : i ≠ j) :
    Apart (Mismatch.indexPath path i) (Mismatch.indexPath path j) := by
  refine apart_step fun r r' heq => h ?_
  rw [String.toList_ofList, String.toList_ofList] at heq
  have hbracket : ∀ q : List Char, ∀ c ∈ (']' :: q).head?, c.isDigit = false := by
    rintro q _ ⟨⟩
    rfl
  exact (Text.decimal_append_inj (hbracket r) (hbracket r') heq).1

theorem apart_of_isRoot {name other : String} (hname : IsRoot name) (hother : IsRoot other)
    (h : name ≠ other) : Apart name other :=
  fun _ hbelow hbelow' => h (hbelow'.unique hbelow hother hname)

/-- What is found below paths that are apart has distinct paths, if it has below each of them. -/
theorem nodup_flatMap {α β : Type} {l : List α} (base : α → String) {found : α → List β}
    {path : β → String} (hapart : l.Pairwise fun a b => Apart (base a) (base b))
    (hbelow : ∀ a ∈ l, ∀ m ∈ found a, Below (base a) (path m))
    (hnodup : ∀ a ∈ l, ((found a).map path).Nodup) : ((l.flatMap found).map path).Nodup := by
  rw [List.map_flatMap]
  refine List.nodup_flatMap.mpr ⟨hnodup, hapart.imp_of_mem fun {a b} ha hb h p hp hq => ?_⟩
  obtain ⟨m, hm, rfl⟩ := List.mem_map.mp hp
  obtain ⟨m', hm', heq⟩ := List.mem_map.mp hq
  have hbelow' := hbelow b hb m' hm'
  rw [heq] at hbelow'
  exact h _ (hbelow a ha m hm) hbelow'

end ValuePath

open ValuePath

namespace Shape

/-- The shapes in which no record names a field twice, and no value is of the kind of two
alternatives. -/
inductive Unambiguous : Shape → Prop
  | str : Unambiguous .str
  | bool : Unambiguous .bool
  | null : Unambiguous .null
  | listOf {item : Shape} : Unambiguous item → Unambiguous (.listOf item)
  | pair {first second : Shape} : Unambiguous first → Unambiguous second →
      Unambiguous (.pair first second)
  | mapOf {value : Shape} : Unambiguous value → Unambiguous (.mapOf value)
  | record {fields : List Field} : (fields.map Field.name).Nodup →
      (∀ f ∈ fields, Unambiguous f.shape) → Unambiguous (.record fields)
  | oneOf {alternatives : List Shape} :
      (∀ v, alternatives.Pairwise fun s t => ¬(acceptsKind v s = true ∧ acceptsKind v t = true)) →
      (∀ s ∈ alternatives, Unambiguous s) → Unambiguous (.oneOf alternatives)

/-! ## Mismatches below their parts -/

variable {path : String}

theorem below_of_mem_mismatches (hpath : path ≠ "") {s : Shape} {v : Value} {m : Mismatch}
    (h : m ∈ mismatches path v s) : Below path m.path :=
  (s.reports_of_mem_mismatches h).path_below hpath

theorem keyPath_ne_empty (hpath : path ≠ "") (k : Value) : Mismatch.keyPath path k ≠ "" :=
  (below_keyPath hpath k).ne_empty hpath

theorem indexPath_ne_empty (hpath : path ≠ "") (i : Nat) : Mismatch.indexPath path i ≠ "" :=
  (below_indexPath i).ne_empty hpath

theorem below_of_mem_entryMismatches {fields : List Field} {e : Value × Value} {m : Mismatch}
    (hkey : Mismatch.keyPath path e.1 ≠ "") (h : m ∈ entryMismatches path fields e) :
    Below (Mismatch.keyPath path e.1) m.path := by
  rw [entryMismatches] at h
  split at h
  · exact below_of_mem_mismatches hkey h
  · cases List.mem_singleton.mp h
    exact .here

theorem below_of_mem_valueMismatches {value : Shape} {e : Value × Value} {m : Mismatch}
    (hkey : Mismatch.keyPath path e.1 ≠ "") (h : m ∈ valueMismatches path value e) :
    Below (Mismatch.keyPath path e.1) m.path := by
  rw [valueMismatches] at h
  split at h
  · exact below_of_mem_mismatches hkey h
  · cases List.mem_singleton.mp h
    exact .here

/-! ## Distinct paths -/

theorem nodup_singleton_path (m : Mismatch) : ([m].map (·.path)).Nodup := List.nodup_singleton _

theorem nodup_mismatchUnless {fits : Bool} {s : Shape} {v : Value} :
    ((mismatchUnless fits s path v).map (·.path)).Nodup := by
  rw [mismatchUnless]
  split
  · exact .nil
  · exact nodup_singleton_path _

/-- Of a choice the mismatches with one alternative are kept, or one of its own. -/
theorem nodup_chosen {whole : Mismatch} {attempts : List (Bool × List Mismatch)}
    (h : ∀ attempt ∈ attempts, (attempt.2.map (·.path)).Nodup) :
    ((chosen whole attempts).map (·.path)).Nodup := by
  rcases chosen_cases whole attempts with hnone | hwhole | ⟨attempt, hattempt, hkept⟩
  · rw [hnone]
    exact .nil
  · rw [hwhole]
    exact nodup_singleton_path whole
  · rw [hkept]
    exact h attempt hattempt

theorem nodup_missing (hpath : path ≠ "") {fields : List Field}
    (hnames : (fields.map Field.name).Nodup) (entries : List (Value × Value)) :
    ((fields.filterMap (missing? path ⟨entries⟩)).map (·.path)).Nodup := by
  refine List.pairwise_map.mpr (List.pairwise_filterMap.mpr ?_)
  refine (List.pairwise_map.mp hnames).imp fun {f g} hne m hm m' hm' heq => ?_
  obtain ⟨-, -, rfl⟩ := missing?_eq_some_iff.mp hm
  obtain ⟨-, -, rfl⟩ := missing?_eq_some_iff.mp hm'
  have hsame : Mismatch.keyPath path (.str f.name) = Mismatch.keyPath path (.str g.name) := heq
  refine apart_keyPath hpath (fun h => hne (Value.str.inj h)) _ .here ?_
  rw [hsame]
  exact .here

theorem pairwise_apart_keyPath (hpath : path ≠ "") {entries : List (Value × Value)}
    (hkeys : (entries.map (·.1)).Nodup) : entries.Pairwise fun a b =>
      Apart (Mismatch.keyPath path a.1) (Mismatch.keyPath path b.1) :=
  (List.pairwise_map.mp hkeys).imp fun hne => apart_keyPath hpath hne

theorem nodup_paths {s : Shape} (hs : s.Unambiguous) (hpath : path ≠ "") {v : Value}
    (hv : DistinctKeys v) : ((mismatches path v s).map (·.path)).Nodup := by
  induction hs generalizing path v with
  | str => exact nodup_mismatchUnless
  | bool => exact nodup_mismatchUnless
  | null => exact nodup_mismatchUnless
  | @listOf item _ ih =>
      cases hv with
      | @list items hitems =>
          show ((items.zipIdx.flatMap fun e =>
            mismatches (Mismatch.indexPath path e.2) e.1 item).map (·.path)).Nodup
          refine nodup_flatMap (fun e => Mismatch.indexPath path e.2) ?_ ?_ ?_
          · exact (List.pairwise_map.mp (Value.nodup_indices items)).imp fun hne =>
              apart_indexPath hne
          · exact fun e _ m hm => below_of_mem_mismatches (indexPath_ne_empty hpath _) hm
          · intro e he
            exact ih (indexPath_ne_empty hpath _) (hitems _ (List.fst_mem_of_mem_zipIdx he))
      | _ => exact nodup_singleton_path _
  | pair _ _ ih₁ ih₂ =>
      rw [mismatches]
      split
      · rename_i a b hitems
        obtain ⟨ha, hb⟩ := List.forall_mem_cons.mp (hv.of_asSequence? hitems)
        rw [List.map_append, List.nodup_append]
        refine ⟨ih₁ (indexPath_ne_empty hpath 0) ha,
          ih₂ (indexPath_ne_empty hpath 1) (List.forall_mem_singleton.mp hb), ?_⟩
        intro p hp q hq heq
        obtain ⟨m, hm, rfl⟩ := List.mem_map.mp hp
        obtain ⟨m', hm', rfl⟩ := List.mem_map.mp hq
        have hbelow := below_of_mem_mismatches (indexPath_ne_empty hpath 0) hm
        rw [heq] at hbelow
        exact apart_indexPath Nat.zero_ne_one _ hbelow
          (below_of_mem_mismatches (indexPath_ne_empty hpath 1) hm')
      · exact nodup_singleton_path _
      · exact nodup_singleton_path _
  | mapOf _ ih =>
      cases hv with
      | dict hkeys hvalues =>
          rw [mismatches_mapOf_dict]
          refine nodup_flatMap _ (pairwise_apart_keyPath hpath hkeys)
            (fun e _ m hm => below_of_mem_valueMismatches (keyPath_ne_empty hpath _) hm) ?_
          intro e he
          rw [valueMismatches]
          split
          · exact ih (keyPath_ne_empty hpath _) (hvalues e he)
          · exact nodup_singleton_path _
      | _ => exact nodup_singleton_path _
  | record hnames _ ih =>
      cases hv with
      | dict hkeys hvalues =>
          rw [mismatches_record_dict, List.map_append, List.nodup_append]
          refine ⟨nodup_flatMap _ (pairwise_apart_keyPath hpath hkeys)
            (fun e _ m hm => below_of_mem_entryMismatches (keyPath_ne_empty hpath _) hm) ?_,
            nodup_missing hpath hnames _, ?_⟩
          · intro e he
            rw [entryMismatches]
            split
            · rename_i f hf
              exact ih f (List.mem_of_find?_eq_some hf) (keyPath_ne_empty hpath _) (hvalues e he)
            · exact nodup_singleton_path _
          · intro p hp q hq heq
            obtain ⟨m, hm, rfl⟩ := List.mem_map.mp hp
            obtain ⟨m', hm', rfl⟩ := List.mem_map.mp hq
            obtain ⟨e, he, hm⟩ := List.mem_flatMap.mp hm
            obtain ⟨f, -, hm'⟩ := List.mem_filterMap.mp hm'
            obtain ⟨-, habsent, rfl⟩ := missing?_eq_some_iff.mp hm'
            have hbelow := below_of_mem_entryMismatches (keyPath_ne_empty hpath _) hm
            rw [heq] at hbelow
            have hkey : e.1 ≠ .str f.name := fun hkey => habsent e.2 (hkey ▸ he)
            exact apart_keyPath hpath hkey _ hbelow .here
      | _ => exact nodup_singleton_path _
  | oneOf _ _ ih =>
      rw [mismatches, attempts_eq_map]
      refine nodup_chosen (List.forall_mem_map.mpr fun s hs => ?_)
      exact ih s hs hpath hv

/-! ## The shape of a manifest -/

theorem Unambiguous.strings : strings.Unambiguous := .listOf .str

theorem Unambiguous.hooks : hooks.Unambiguous := by
  refine .listOf (.record (by decide) ?_)
  simp only [List.forall_mem_cons]
  exact ⟨.strings, .str, .str, List.forall_mem_nil _⟩

theorem Unambiguous.strOr {s : Shape} (hs : s.Unambiguous)
    (hkind : ∀ text, acceptsKind (.str text) s = false) : (Shape.oneOf [.str, s]).Unambiguous := by
  refine .oneOf (fun v => List.pairwise_pair.mpr ?_)
    (List.forall_mem_cons.mpr ⟨.str, List.forall_mem_singleton.mpr hs⟩)
  rintro ⟨hstr, hother⟩
  cases v with
  | str text =>
      rw [hkind text] at hother
      cases hother
  | _ => cases hstr

theorem unambiguous_manifest : manifest.Unambiguous := by
  refine .record (by decide) ?_
  simp only [List.forall_mem_cons, Field.shape]
  have hdep : (record [.mk "url" true .str]).Unambiguous :=
    .record (by decide) (List.forall_mem_singleton.mpr .str)
  exact ⟨.strings, .mapOf (.strOr hdep fun _ => rfl), .mapOf (.mapOf (.strOr .null fun _ => rfl)),
    .hooks, .mapOf .hooks, .strings, .hooks,
    .listOf (.strOr (.pair .str .str) fun _ => rfl), .strings,
    .mapOf .strings, .strings, .bool, .mapOf (.strOr .bool fun _ => rfl), List.forall_mem_nil _⟩

end Shape

namespace Scope

variable {s : Scope}

theorem nodup_paths (hnames : ∀ name, s.contains name = true → IsRoot name)
    (hkeys : s.Binds DistinctKeys) : (s.mismatches.map (·.path)).Nodup := by
  have hroot : ∀ e ∈ s.pairs, IsRoot e.1 := fun e he => hnames e.1 (contains_of_mem_pairs he)
  have hfields : ∀ f ∈ Shape.manifestFields, f.shape.Unambiguous := by
    have hmanifest := Shape.unambiguous_manifest
    rw [Shape.manifest_eq] at hmanifest
    cases hmanifest with
    | record _ hfields => exact hfields
  rw [mismatches_eq]
  refine nodup_flatMap Prod.fst ?_ ?_ ?_
  · refine (List.pairwise_map.mp s.nodup_pairs).imp_of_mem fun {a b} ha hb hne => ?_
    exact apart_of_isRoot (hroot a ha) (hroot b hb) hne
  · intro e he m hm
    have hbelow := Shape.below_of_mem_entryMismatches
      (by rw [keyPath_top]; exact (hroot e he).ne_empty) hm
    rw [keyPath_top] at hbelow
    exact hbelow
  · intro e he
    rw [Shape.entryMismatches, keyPath_top]
    split
    · rename_i f hf
      exact Shape.nodup_paths (hfields f (List.mem_of_find?_eq_some hf)) (hroot e he).ne_empty
        (hkeys e.1 e.2 (mem_pairs_iff.mp he))
    · exact Shape.nodup_singleton_path _

end Scope

end DepsManifest
