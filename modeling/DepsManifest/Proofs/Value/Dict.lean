import DepsManifest.Value.Dict
/-! # String keys

A string key is found under its own text and nowhere else, so that what a dict gives under a text is
the value of the first entry with that key. Entries all of whose keys are strings are those of a
list of texts and values (`exists_eq_stringKeyed`).
-/
namespace DepsManifest

namespace Value

theorem asString?_eq_some {v : Value} {s : String} : v.asString? = some s ↔ v = .str s := by
  cases v with
  | str t =>
      constructor
      · intro h
        cases h
        rfl
      · intro h
        cases h
        rfl
  | _ => exact ⟨fun h => (nomatch h), fun h => (nomatch h)⟩

end Value

/-- Entries with string keys. -/
def stringKeyed (entries : List (String × Value)) : List (Value × Value) :=
  entries.map fun e => (.str e.1, e.2)

/-- Entries whose keys are strings are the entries with their texts. -/
theorem exists_eq_stringKeyed {entries : List (Value × Value)}
    (h : ∀ e ∈ entries, ∃ name, e.1 = .str name) : ∃ named, entries = stringKeyed named := by
  induction entries with
  | nil => exact ⟨[], rfl⟩
  | cons e entries ih =>
      obtain ⟨hfirst, hrest⟩ := List.forall_mem_cons.mp h
      obtain ⟨k, v⟩ := e
      obtain ⟨name, rfl⟩ := hfirst
      obtain ⟨named, rfl⟩ := ih hrest
      exact ⟨(name, v) :: named, rfl⟩

namespace Dict

/-- What a dict gives under a text is the value of an entry with that key. -/
theorem mem_of_getString? {d : Dict} {name : String} {v : Value}
    (h : d.getString? name = some v) : (.str name, v) ∈ d.entries := by
  obtain ⟨⟨k, x⟩, hfind, hx⟩ := Option.map_eq_some_iff.mp h
  have hfound := List.find?_some hfind
  have hkey : k.asString? = some name := eq_of_beq hfound
  have hmem := List.mem_of_find?_eq_some hfind
  rw [Value.asString?_eq_some.mp hkey] at hmem
  exact (show x = v from hx) ▸ hmem

theorem isSome_getString? {d : Dict} {name : String} :
    (d.getString? name).isSome = true ↔ ∃ v, (.str name, v) ∈ d.entries := by
  constructor
  · intro h
    obtain ⟨v, hv⟩ := Option.isSome_iff_exists.mp h
    exact ⟨v, mem_of_getString? hv⟩
  · rintro ⟨v, hv⟩
    rw [getString?, Option.isSome_map, List.find?_isSome]
    exact ⟨(.str name, v), hv, beq_self_eq_true _⟩

end Dict

end DepsManifest
