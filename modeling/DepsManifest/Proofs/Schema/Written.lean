import DepsManifest.Proofs.Schema.Manifest
import DepsManifest.Proofs.Scope
import DepsManifest.Proofs.Value.Conversion
/-! # A valid scope can be written and read back

What a valid scope is written as, in either layout, is read as a scope that it matches
(`Scope.exists_ofExpectedText_of_valid`). Two things could stand in the way, and the shape of a
manifest rules out both:

  * **keys** — a key that is no string has no place in the text. A value that has a shape has
    strings for keys wherever it has dicts, so that it is plain if it was constructed
    (`Shape.Conforms.plain`);
  * **depth** — a text that is nested too deeply is not read. A value that has a shape is nested no
    deeper than the shape (`Shape.Conforms.depth_le`), and the shape of a manifest is a fixed one,
    so its depth is a number that is compared with the limit once.

That the values were constructed, so that no dict has a key twice, is asked of the bindings; it
holds of every scope that is executed.
-/
namespace DepsManifest

namespace Shape

open Value (Constructible Plain plain_dict)

/-! ## Keys -/

theorem exists_of_isSome_ofKey? {fields : List Field} {key : Value}
    (h : (Field.ofKey? fields key).isSome) : ∃ name, key = .str name := by
  obtain ⟨f, hf⟩ := Option.isSome_iff_exists.mp h
  have hname := List.find?_some hf
  exact ⟨f.name, Value.asString?_eq_some.mp (eq_of_beq hname)⟩

/-- A constructed value that has a shape is plain. -/
theorem Conforms.plain {s : Shape} {v : Value} (h : Conforms s v) (hv : Constructible v) :
    Plain v := by
  induction h with
  | str s => exact .str s
  | bool b => exact .bool b
  | null => exact .null
  | list _ ih =>
      cases hv with
      | list hitems => exact .list fun x hx => ih x hx (hitems x hx)
  | pairList _ _ iha ihb =>
      cases hv with
      | list hitems =>
          obtain ⟨ha, hb⟩ := List.forall_mem_cons.mp hitems
          exact .list (List.forall_mem_cons.mpr
            ⟨iha ha, List.forall_mem_singleton.mpr (ihb (hb _ List.mem_cons_self))⟩)
  | pairTuple _ _ iha ihb =>
      cases hv with
      | tuple hitems =>
          obtain ⟨ha, hb⟩ := List.forall_mem_cons.mp hitems
          exact .tuple (List.forall_mem_cons.mpr
            ⟨iha ha, List.forall_mem_singleton.mpr (ihb (hb _ List.mem_cons_self))⟩)
  | map hkeys _ ih => exact plain_dict hkeys hv ih
  | record hfields _ _ ih =>
      refine plain_dict (fun e he => exists_of_isSome_ofKey? (hfields e he)) hv fun e he => ?_
      obtain ⟨f, hf⟩ := Option.isSome_iff_exists.mp (hfields e he)
      exact ih e he f hf
  | oneOf _ _ ih => exact ih hv

/-! ## Depth -/

mutual

/-- The number of containers inside one another that a shape allows. -/
def depth : Shape → Nat
  | .listOf item => depth item + 1
  | .pair first second => max (depth first) (depth second) + 1
  | .mapOf value => depth value + 1
  | .record fields => depthFields fields + 1
  | .oneOf alternatives => depthAlternatives alternatives
  | _ => 0

def depthFields : List Field → Nat
  | [] => 0
  | .mk _ _ shape :: rest => max (depth shape) (depthFields rest)

def depthAlternatives : List Shape → Nat
  | [] => 0
  | shape :: rest => max (depth shape) (depthAlternatives rest)

end

theorem depth_le_depthFields {fields : List Field} {f : Field} (h : f ∈ fields) :
    f.shape.depth ≤ depthFields fields := by
  induction h with
  | head =>
      obtain ⟨_, _, shape⟩ := f
      exact Nat.le_max_left _ _
  | @tail g rest _ ih =>
      obtain ⟨_, _, shape⟩ := g
      exact Nat.le_trans ih (Nat.le_max_right _ _)

theorem depth_le_depthAlternatives {alternatives : List Shape} {s : Shape} (h : s ∈ alternatives) :
    s.depth ≤ depthAlternatives alternatives := by
  induction h with
  | head => exact Nat.le_max_left _ _
  | tail _ _ ih => exact Nat.le_trans ih (Nat.le_max_right _ _)

theorem depthAll_pair_le {a b : Value} {m n : Nat} (ha : a.depth ≤ m) (hb : b.depth ≤ n) :
    Value.depthAll [a, b] ≤ max m n := by
  refine Value.depthAll_le_iff.mpr (List.forall_mem_cons.mpr ⟨?_, List.forall_mem_singleton.mpr ?_⟩)
  · exact Nat.le_trans ha (Nat.le_max_left m n)
  · exact Nat.le_trans hb (Nat.le_max_right m n)

/-- A value that has a shape is nested no deeper than the shape allows. -/
theorem Conforms.depth_le {s : Shape} {v : Value} (h : Conforms s v) : v.depth ≤ s.depth := by
  induction h with
  | str s => exact Nat.zero_le _
  | bool b => exact Nat.zero_le _
  | null => exact Nat.zero_le _
  | list _ ih => exact Nat.succ_le_succ (Value.depthAll_le_iff.mpr ih)
  | pairList _ _ iha ihb => exact Nat.succ_le_succ (depthAll_pair_le iha ihb)
  | pairTuple _ _ iha ihb => exact Nat.succ_le_succ (depthAll_pair_le iha ihb)
  | map _ _ ih => exact Nat.succ_le_succ (Value.depthEntries_le_iff.mpr ih)
  | record hfields _ _ ih =>
      refine Nat.succ_le_succ (Value.depthEntries_le_iff.mpr fun e he => ?_)
      obtain ⟨f, hf⟩ := Option.isSome_iff_exists.mp (hfields e he)
      exact Nat.le_trans (ih e he f hf) (depth_le_depthFields (List.mem_of_find?_eq_some hf))
  | oneOf hmem _ ih => exact Nat.le_trans ih (depth_le_depthAlternatives hmem)

end Shape

namespace Scope

open Value (Constructible Matches WellKeyed)

variable {s : Scope}

theorem constructible_toValue (h : s.Binds Constructible) : Constructible s.toValue := by
  rw [toValue_eq]
  refine .dict ?_ (List.forall_mem_map.mpr fun e _ => .str e.1)
    (List.forall_mem_map.mpr fun e he => h e.1 e.2 (mem_pairs_iff.mp he))
  have hnodup : s.pairs.Pairwise fun a b => a.1 ≠ b.1 := List.pairwise_map.mp s.nodup_pairs
  refine List.pairwise_map.mpr (hnodup.imp fun {a b} hne => Bool.eq_false_iff.mpr fun heq => hne ?_)
  exact Value.str.inj ((Value.Flat.str a.1).eq_of_eqv heq)

theorem exists_ofExpectedText_of_valid (hvalid : s.mismatches = []) (h : s.Binds Constructible) :
    ∃ expected : Scope, WellKeyed expected.toValue ∧ WellKeyed s.toValue ∧
      Matches expected.toValue s.toValue ∧
      ∀ after : String, Json.Blank after.toList →
        ofExpectedText (s.document.compact ++ after) = .ok expected ∧
          ofExpectedText (s.document.indented ++ after) = .ok expected := by
  have hconforms : Shape.manifest.Conforms s.toValue :=
    (Shape.mismatches_eq_nil_iff _ _ _).mp hvalid
  have hplain : Value.Plain s.toValue := hconforms.plain (constructible_toValue h)
  have hlimit : Shape.manifest.depth ≤ Json.nestingLimit := by decide
  obtain ⟨expected, hkeyed, hmatches, hread⟩ := exists_ofExpectedText hplain
  refine ⟨expected, hkeyed, hplain.wellKeyed, hmatches, fun after hafter => ?_⟩
  rw [document_eq]
  obtain ⟨hcompact, hindented⟩ :=
    Value.read?_document (Nat.le_trans hconforms.depth_le hlimit) hafter
  exact ⟨hread _ hcompact, hread _ hindented⟩

end Scope

end DepsManifest
