import DepsManifest.Proofs.NameMap
import DepsManifest.Proofs.Schema.Conformance
/-! # What a valid scope binds

In a scope without mismatches each name of a manifest that is bound has the shape that a manifest
gives it (`Scope.conforms_of_get?`). This is how validity is used: what reads a scope asks for names
one by one, and has for each of them the shape of what it finds.

A name whose shape is a dict with string keys has the entries of that dict, or none if nothing is
bound to it (`exists_hasEntries`); `Scope.HasEntries` makes the two cases one.

`Shape.ofName?` looks the shape of a name up among the fields of a manifest, so that a proof about a
name is closed by evaluation, and a new field changes nothing here.
-/
namespace DepsManifest

/-- The entries of the dict that a name is bound to; none if nothing is bound to it. -/
def Scope.HasEntries (s : Scope) (name : String) (entries : List (Value × Value)) : Prop :=
  s.get? name = some (.dict entries) ∨ s.get? name = none ∧ entries = []

namespace Shape

def manifestFields : List Field :=
  match manifest with
  | .record fields => fields
  | _ => []

theorem manifest_eq : manifest = .record manifestFields := rfl

/-- The shape that a manifest gives to a name. -/
def ofName? (name : String) : Option Shape :=
  (Field.ofKey? manifestFields (.str name)).map Field.shape

end Shape

namespace Scope

variable {s : Scope} {name : String} {v : Value}

theorem mem_of_get? (h : s.get? name = some v) :
    (.str name, v) ∈ s.bindings.entries.map fun e => (Value.str e.1, e.2.value) := by
  obtain ⟨b, hb, rfl⟩ := Option.map_eq_some_iff.mp h
  have hmem : (name, b) ∈ s.bindings.entries := NameMap.mem_entries_iff.mpr hb
  exact List.mem_map_of_mem (f := fun e => (Value.str e.1, e.2.value)) hmem

/-- In a valid scope a name of a manifest is bound to a value of its shape. -/
theorem conforms_of_get? (hvalid : s.mismatches = []) (hv : s.get? name = some v) {shape : Shape}
    (hshape : Shape.ofName? name = some shape) : shape.Conforms v := by
  have hconforms : Shape.manifest.Conforms s.toValue :=
    (Shape.mismatches_eq_nil_iff _ _ _).mp hvalid
  obtain ⟨f, hf, rfl⟩ := Option.map_eq_some_iff.mp hshape
  rw [Shape.manifest_eq] at hconforms
  cases hconforms with
  | record _ hvalues _ => exact hvalues _ (mem_of_get? hv) f hf

theorem exists_eq_map_str {items : List Value} (h : ∀ x ∈ items, Shape.str.Conforms x) :
    ∃ texts : List String, items = texts.map .str := by
  induction items with
  | nil => exact ⟨[], rfl⟩
  | cons item items ih =>
      obtain ⟨hfirst, hrest⟩ := List.forall_mem_cons.mp h
      obtain ⟨text, rfl⟩ := Shape.conforms_str_iff.mp hfirst
      obtain ⟨texts, rfl⟩ := ih hrest
      exact ⟨text :: texts, rfl⟩

/-- If what a name is bound to is a dict of one shape, the name has entries of that shape. -/
theorem exists_hasEntries {value : Shape}
    (h : ∀ v, s.get? name = some v → (Shape.mapOf value).Conforms v) :
    ∃ entries, s.HasEntries name (stringKeyed entries) ∧ ∀ e ∈ entries, value.Conforms e.2 := by
  cases hget : s.get? name with
  | none => exact ⟨[], .inr ⟨hget, rfl⟩, nofun⟩
  | some v =>
      obtain ⟨entries, rfl, hvalues⟩ := Shape.conforms_mapOf_iff.mp (h v hget)
      exact ⟨entries, .inl hget, hvalues⟩

end Scope

end DepsManifest
