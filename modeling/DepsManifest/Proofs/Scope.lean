import DepsManifest.Proofs.Value.Json
import DepsManifest.Run
/-! # Scopes that are written and read back

A scope is written as the dict of its bindings: its document is the document of that value
(`Scope.document_eq`), so all that is known of written values holds of written scopes.

Reading back goes the other way, from a text to a value and from its entries to bindings. Entries
with distinct string keys are bound one after the other, each to its value (`exists_ofEntries?`),
and the result has exactly these bindings (`exists_ofValue?`). The order in which they are bound
leaves no trace, since a scope lists its names in the order of the program.

The result is `Scope.exists_ofExpectedText`. If the bindings are plain, every text that denotes the
view of the scope is read as one expected scope, and the written scope matches it. It is not the
written scope itself: what was a tuple is a list in it, and the keys of its dicts are in order.
-/
namespace DepsManifest

open Value (Matches Plain WellKeyed)

namespace Scope

variable {s : Scope}

/-- The names of a scope with their values. -/
def pairs (s : Scope) : List (String × Value) := s.bindings.entries.map fun e => (e.1, e.2.value)

theorem toValue_eq (s : Scope) : s.toValue = .dict (stringKeyed s.pairs) := by
  rw [toValue, stringKeyed, pairs, List.map_map]
  rfl

theorem names_pairs (s : Scope) : s.pairs.map (·.1) = s.bindings.entries.map (·.1) := by
  rw [pairs, List.map_map]
  rfl

theorem nodup_pairs (s : Scope) : (s.pairs.map (·.1)).Nodup :=
  s.names_pairs ▸ s.bindings.nodup_names

theorem mem_pairs_iff {name : String} {v : Value} : (name, v) ∈ s.pairs ↔ s.get? name = some v := by
  rw [pairs, List.mem_map, get?, Option.map_eq_some_iff]
  constructor
  · rintro ⟨⟨n, b⟩, hb, heq⟩
    cases heq
    exact ⟨b, NameMap.mem_entries_iff.mp hb, rfl⟩
  · rintro ⟨b, hb, rfl⟩
    exact ⟨(name, b), NameMap.mem_entries_iff.mpr hb, rfl⟩

/-! ## Reading entries -/

/-- Entries with new names are bound one after the other. -/
theorem exists_ofEntries? {entries : List (String × Value)} (hnodup : (entries.map (·.1)).Nodup)
    (hnew : ∀ name ∈ entries.map (·.1), s.get? name = none) :
    ∃ s' : Scope, s.ofEntries? (stringKeyed entries) = some s' ∧
      ∀ name v, s'.get? name = some v ↔ (name, v) ∈ entries ∨ s.get? name = some v := by
  induction entries generalizing s with
  | nil => exact ⟨s, rfl, fun _ _ => by simp⟩
  | cons e entries ih =>
      obtain ⟨n, x⟩ := e
      obtain ⟨hfirst, hrest⟩ := List.nodup_cons.mp hnodup
      obtain ⟨hunbound, hothers⟩ := List.forall_mem_cons.mp hnew
      have hbind : s.bind n x none = .ok ⟨s.bindings.insert n ⟨x, none⟩⟩ := by
        rw [bind, hunbound]
      have hget : ∀ name, (⟨s.bindings.insert n ⟨x, none⟩⟩ : Scope).get? name =
          if name = n then some x else s.get? name := by
        intro name
        rw [get?, NameMap.get?_insert, get?]
        split <;> rfl
      have hstill : ∀ name ∈ entries.map (·.1),
          (⟨s.bindings.insert n ⟨x, none⟩⟩ : Scope).get? name = none := by
        intro name hname
        have hne : name ≠ n := by
          rintro rfl
          exact hfirst hname
        rw [hget, if_neg hne]
        exact hothers name hname
      obtain ⟨s', hs', hvalues⟩ := ih hrest hstill
      refine ⟨s', ?_, fun name v => ?_⟩
      · have hcons : stringKeyed ((n, x) :: entries) = (.str n, x) :: stringKeyed entries := rfl
        rw [hcons, ofEntries?, hbind]
        exact hs'
      · rw [hvalues, hget]
        by_cases heq : name = n
        · subst heq
          simp [hunbound, eq_comm, or_comm]
        · simp [heq]

theorem exists_ofValue? {entries : List (String × Value)} (hnodup : (entries.map (·.1)).Nodup) :
    ∃ s : Scope, ofValue? (.dict (stringKeyed entries)) = some s ∧
      ∀ name v, (name, v) ∈ s.pairs ↔ (name, v) ∈ entries := by
  obtain ⟨s, hs, hvalues⟩ := exists_ofEntries? (s := empty) hnodup fun _ _ => rfl
  refine ⟨s, hs, fun name v => ?_⟩
  have hempty : empty.get? name = none := rfl
  rw [mem_pairs_iff, hvalues, hempty]
  simp

/-! ## The written scope -/

theorem document_eq (s : Scope) : s.document = s.toValue.document := by
  rw [document, toValue, Value.document]
  generalize s.bindings.entries = entries
  induction entries with
  | nil => rfl
  | cons e entries ih =>
      have htail := Json.obj.inj ih
      exact congrArg (fun members => Json.obj ((e.1, e.2.value.document) :: members)) htail

/-- Whatever text is read as the view of a plain scope is read as one scope, which the plain one
matches. -/
theorem exists_ofExpectedText (hplain : Plain s.toValue) :
    ∃ expected : Scope, WellKeyed expected.toValue ∧ Matches expected.toValue s.toValue ∧
      ∀ text, Json.read? text = some s.toValue.toJson → ofExpectedText text = .ok expected := by
  obtain ⟨w, hw, hread, hmatches⟩ := hplain.exists_ofJson Value.followsParts_readFor
  rw [toValue_eq] at hmatches
  cases hread with
  | @dict entries hnodup hvalues =>
      obtain ⟨expected, hexpected, hpairs⟩ := exists_ofValue? hnodup
      refine ⟨expected, ?_, ?_, fun text htext => ?_⟩
      · rw [toValue_eq]
        refine (Plain.dict expected.nodup_pairs fun e he => ?_).wellKeyed
        exact hvalues e ((hpairs e.1 e.2).mp he)
      · rw [toValue_eq, toValue_eq]
        refine Matches.trans (Value.matches_stringKeyed (fun name => ?_) fun name e a he ha => ?_)
          hmatches
        · simp only [List.mem_map, Prod.exists, hpairs]
        · have hmem : (name, e) ∈ entries := (hpairs name e).mp he
          have hsame : e = a := congrArg Prod.snd (List.inj_on_of_nodup_map hnodup hmem ha rfl)
          rw [← hsame]
          exact Value.matches_self (hvalues _ hmem).wellKeyed
      · rw [ofExpectedText, htext]
        simp only [hw, hexpected]
  | _ => cases (Value.matches_iff_beq rfl).mp hmatches

end Scope

end DepsManifest
