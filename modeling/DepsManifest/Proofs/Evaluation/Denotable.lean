import DepsManifest.Proofs.Evaluation.Manifest
import DepsManifest.Proofs.Value.Constructible
import DepsManifest.Proofs.Value.Keys
/-! # Evaluation gives denotable values

A denotable value is one that an expression without calls could stand for: it has no whole number in
it, and every dict in it has distinct keys without lists and dicts. Evaluation gives such values and
no others, as long as the functions that it calls do (`Expr.evaluation_denotable`). That holds of
the value of an expression, of every name that can be read on the way, and of every part that is
evaluated on the way; and it holds of what a manifest binds, if truth values and strings are set
from outside.

That evaluation keeps a property of values is proved once, for any property with the closure
conditions of `Value.Closed`. Here only these conditions are checked (`closed_denotable`), and two
of them need an argument:

  * a key is refused if there is a list or a dict in it, so the keys that get in are flat
    (`flat_of_unhashable?`);
  * an entry replaces one with an equal key, and for flat keys equal is the same, so that distinct
    keys stay distinct (`ProperKeys.insertEntry`).

Whole numbers come from functions only: a number in a text is read, but it has no value.
-/
namespace DepsManifest

namespace Value

/-! ## Keys -/

mutual

/-- A value that can be a key has no list and no dict in it. -/
theorem flat_of_unhashable? : ∀ {v : Value}, v.unhashable? = none → Flat v
  | .null, _ => .null
  | .bool b, _ => .bool b
  | .int i, _ => .int i
  | .str s, _ => .str s
  | .tuple _, h => .tuple (flat_of_firstUnhashable? h)
  | .list _, h => nomatch h
  | .dict _, h => nomatch h

theorem flat_of_firstUnhashable? :
    ∀ {items : List Value}, firstUnhashable? items = none → ∀ v ∈ items, Flat v
  | [], _ => List.forall_mem_nil _
  | v :: items, h => by
      rw [firstUnhashable?] at h
      cases hv : v.unhashable? with
      | some typeName =>
          rw [hv] at h
          cases h
      | none =>
          rw [hv] at h
          exact List.forall_mem_cons.mpr ⟨flat_of_unhashable? hv, flat_of_firstUnhashable? h⟩

end

theorem ProperKeys.insertEntry {entries : List (Value × Value)} (h : ProperKeys entries)
    {key : Value} (hkey : Flat key) (value : Value) :
    ProperKeys (Dict.insertEntry key value entries) := by
  have hflat : ∀ e ∈ Dict.insertEntry key value entries, Flat e.1 ∧ True :=
    Dict.forall_mem_insertEntry (V := fun _ => True)
      (fun e he => ⟨h.flat e he, trivial⟩) hkey trivial
  refine ⟨fun e he => (hflat e he).1, (nodup_keys_iff fun e he => (hflat e he).1).mpr ?_⟩
  exact Dict.pairwise_insertEntry ((nodup_keys_iff h.flat).mp h.nodup) key value

/-! ## Values -/

/-- Evaluation of denotable values gives denotable values. -/
theorem closed_denotable : Closed Denotable where
  null := .null
  bool := .bool
  str := .str
  int := nofun
  list_iff := by
    intro items
    constructor
    · intro h
      cases h with
      | list hitems => exact hitems
    · exact .list
  tuple_iff := by
    intro items
    constructor
    · intro h
      cases h with
      | tuple hitems => exact hitems
    · exact .tuple
  empty := .dict (List.forall_mem_nil _) (List.forall_mem_nil _) (List.forall_mem_nil _) .nil
  insert := by
    intro entries k v hentries hk hhash hv
    cases hentries with
    | dict hkeys hvalues hflat hnodup =>
        have hparts : ∀ e ∈ Dict.insertEntry k v entries, Denotable e.1 ∧ Denotable e.2 :=
          Dict.forall_mem_insertEntry (fun e he => ⟨hkeys e he, hvalues e he⟩) hk hv
        have hproper := ProperKeys.insertEntry ⟨hflat, hnodup⟩ (flat_of_unhashable? hhash) v
        exact .dict (fun e he => (hparts e he).1) (fun e he => (hparts e he).2) hproper.flat
          hproper.nodup
  entry := by
    intro entries h
    cases h with
    | dict _ hvalues _ _ => exact hvalues

end Value

/-- Where functions have denotable values for denotable arguments, an expression has a denotable
value if it has one, and so has every name that can be read and every part that is evaluated on the
way. So what a manifest binds is denotable, if truth values and strings are set from outside. -/
theorem evaluation_denotable :
    (∀ fs : Functions, fs.Keep Value.Denotable → ∀ (e : Expr) (exposeVars : Bool),
      (∀ v, e.value fs exposeVars = .ok v → v.Denotable) ∧
      ∀ env s, Visits fs (.initial exposeVars) e env s →
        env.Gives Value.Denotable ∧ ∀ v, s.evaluate fs env = .ok v → v.Denotable) ∧
    ∀ customVars : NameMap Value,
      (∀ n v, customVars.get? n = some v → (∃ b, v = .bool b) ∨ ∃ s, v = .str s) →
      ∀ text scope, executeManifest customVars text = .ok scope → scope.Binds Value.Denotable := by
  have hclosed := Value.closed_denotable
  refine ⟨fun fs hfs e exposeVars => ⟨fun v hv => ?_, fun env s hvisits => ?_⟩,
    fun customVars hcustom text scope h => ?_⟩
  · exact e.value_closed hclosed hfs hv
  · have henv := gives_of_visits hclosed hfs hvisits (Environment.gives_initial hclosed exposeVars)
    exact ⟨henv, fun v hv => s.evaluate_closed hclosed hfs henv hv⟩
  · refine executeManifest_closed hclosed (fun n v hv => ?_) h
    rcases hcustom n v hv with ⟨b, rfl⟩ | ⟨s, rfl⟩
    · exact .bool b
    · exact .str s

def tupleKeyed : Expr :=
  .dict 1 [.entry (.str 1 "a") (.str 1 "x"),
    .entry (.tuple 1 [.name 1 "a"]) (.call 1 (.name 1 "Str") [.name 1 "a"] [] none none)]

/-- The entry of the display is read in its own second key; and what is set from outside takes the
place of a variable of a manifest. -/
theorem evaluation_denotable_tuple_key :
    Functions.strOnly.Keep Value.Denotable ∧
    tupleKeyed.value .strOnly true =
      .ok (.dict [(.str "a", .str "x"), (.tuple [.str "x"], .str "x")]) ∧
    (Value.dict [(.str "a", .str "x"), (.tuple [.str "x"], .str "x")]).Denotable ∧
    (∃ env, Visits .strOnly (.initial true) tupleKeyed env (.name 1 "a") ∧
      env.lookup "a" = some (.str "x") ∧ env.Gives Value.Denotable) ∧
    ∃ scope, executeManifest (.ofList [("a", .bool true)]) "vars=\x7b'a':'x'\x7d\nd=Var('a')" =
        .ok scope ∧ scope.get? "d" = some (.bool true) ∧ scope.Binds Value.Denotable := by
  have hkeep : Functions.strOnly.Keep Value.Denotable :=
    Functions.keep_strOnly Value.closed_denotable
  have hvalue : tupleKeyed.value .strOnly true =
      .ok (.dict [(.str "a", .str "x"), (.tuple [.str "x"], .str "x")]) := rfl
  have hvisits : ∃ env, Visits .strOnly (.initial true) tupleKeyed env (.name 1 "a") ∧
      env.lookup "a" = some (.str "x") := by
    refine ⟨_, .operand (f := .dictKey 1 [.entry (.str 1 "a") (.str 1 "x")] _ []) trivial
      (.operand (f := .tupleItem 1 [] []) trivial (.self _ _)), rfl⟩
  have hexecute : ∃ scope, executeManifest (.ofList [("a", .bool true)])
      "vars=\x7b'a':'x'\x7d\nd=Var('a')" = .ok scope ∧ scope.get? "d" = some (.bool true) := by
    rw [executeManifest, ofText_variableAndUse]
    exact ⟨_, rfl, rfl⟩
  obtain ⟨env, hvisits, hlookup⟩ := hvisits
  obtain ⟨scope, hscope, hbound⟩ := hexecute
  have hall := evaluation_denotable.1 .strOnly hkeep tupleKeyed true
  have hset : ∀ n v, (NameMap.ofList [("a", Value.bool true)]).get? n = some v →
      (∃ b, v = .bool b) ∨ ∃ s, v = .str s := by
    intro n v hv
    rcases NameMap.mem_of_get?_foldl hv with hmem | hempty
    · cases List.mem_singleton.mp hmem
      exact .inl ⟨true, rfl⟩
    · cases hempty
  exact ⟨hkeep, hvalue, hall.1 _ hvalue, ⟨env, hvisits, hlookup, (hall.2 env _ hvisits).1⟩, scope,
    hscope, hbound, evaluation_denotable.2 _ hset _ scope hscope⟩

end DepsManifest
