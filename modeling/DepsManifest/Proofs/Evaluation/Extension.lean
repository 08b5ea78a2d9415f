import DepsManifest.Evaluation.Manifest
import DepsManifest.Proofs.Evaluation.Environment
import DepsManifest.Proofs.Evaluation.Position
import DepsManifest.Proofs.Expr.Moved
/-! # Evaluation where more is known

An expression that has a value keeps it

  * where more functions can be called (`Functions.Within`): it called none that it did not find;
  * where more names can be read (`Environment.Below`): it read none that it did not find;
  * on other lines, which only faults show.

`Expr.evaluate_moved` says all three at once, as one induction over the expression proves them, and
`Expr.evaluate_mono` is the case in which the lines stay. A left operand that decides still decides,
so an operand that was not evaluated is not evaluated now.

The one form that needs care is the dict display. It may expose its entries in one environment and
not in the other, so the two environments go on side by side, each entry bound in the one, in both
or in none of them (`Below.afterEntry`, `evaluateItems_moved`).

There is no converse. A fault may well turn into a value, as a name that was unknown is known then.
-/
namespace DepsManifest

/-- `fs.Within fs'`: the functions of `fs` are among those of `fs'`, each under its name. -/
def Functions.Within (fs fs' : Functions) : Prop :=
  ∀ n f, fs.get? n = some f → fs'.get? n = some f

theorem Functions.Within.refl (fs : Functions) : fs.Within fs := by
  intro n f hf
  exact hf

theorem Functions.within_insert {fs : Functions} {name : String} (hnew : fs.get? name = none)
    (f : Function) : fs.Within (fs.insert name f) := by
  intro n g hg
  have hne : n ≠ name := by
    rintro rfl
    rw [hnew] at hg
    cases hg
  rw [get?, insert, NameMap.get?_insert, if_neg hne]
  exact hg

/-- What `vars` can be evaluated with is among what a manifest is executed with. -/
theorem Functions.strOnly_within_standard (manifestVars : Dict) (customVars : NameMap Value) :
    strOnly.Within (standard manifestVars customVars) :=
  within_insert rfl _

namespace Environment

/-- `env.Below env'`: the two are one environment, or `env` knows the constants alone and keeps what
dict displays hold to itself. -/
def Below (env env' : Environment) : Prop := env = env' ∨ env = .fresh .opaqueDisplays

variable {env env' : Environment}

theorem Below.lookup (h : env.Below env') {n : String} {v : Value} (hv : env.lookup n = some v) :
    env'.lookup n = some v := by
  rcases h with rfl | rfl
  · exact hv
  · rw [lookup_fresh] at hv
    rw [Environment.lookup, hv]
    rfl

theorem Below.afterEntry (h : env.Below env') (k v : Value) :
    (env.afterEntry k v).Below (env'.afterEntry k v) := by
  rcases h with rfl | rfl
  · exact .inl rfl
  · exact .inr rfl

end Environment

namespace Expr

variable {fs fs' : Functions} {env env' : Environment} {lines : Nat → Nat}

theorem isStarred_moved (e : Expr) : (e.moved lines).isStarred = e.isStarred := by
  cases e with
  | call line callee arguments keywords sequence mapping => rw [moved_call]; rfl
  | _ => rfl

theorem evaluateAll_moved {items : List Expr}
    (h : ∀ s ∈ items, ∀ v, s.evaluate fs env = .ok v → (s.moved lines).evaluate fs' env' = .ok v)
    {vs : List Value} (hvs : evaluateAll fs env items = .ok vs) :
    evaluateAll fs' env' (items.map (moved lines)) = .ok vs := by
  induction items generalizing vs with
  | nil => exact hvs
  | cons e items ih =>
      obtain ⟨hfirst, hrest⟩ := List.forall_mem_cons.mp h
      obtain ⟨v, hv, hvs⟩ := bind_eq_ok.mp hvs
      obtain ⟨rest, hall, hvs⟩ := bind_eq_ok.mp hvs
      exact bind_eq_ok.mpr ⟨v, hfirst v hv, bind_eq_ok.mpr ⟨rest, ih hrest hall, hvs⟩⟩

/-- The two environments go on side by side: each entry is shown to the entries after it in both. -/
theorem evaluateItems_moved {items : List DictItem}
    (h : ∀ key value, .entry key value ∈ items → ∀ env env' : Environment, env.Below env' →
      (∀ k, key.evaluate fs env = .ok k → (key.moved lines).evaluate fs' env' = .ok k) ∧
        ∀ v, value.evaluate fs env = .ok v → (value.moved lines).evaluate fs' env' = .ok v)
    (henv : env.Below env') {line line' : Nat} {d d' : Dict}
    (hd' : evaluateItems fs env line d items = .ok d') :
    evaluateItems fs' env' line' d (items.map (DictItem.moved lines)) = .ok d' := by
  induction items generalizing env env' d with
  | nil => exact hd'
  | cons item items ih =>
      obtain ⟨key, value, k, v, rfl, hk, hhash, hv, hrest⟩ := evaluateItems_cons_eq_ok hd'
      obtain ⟨hkey, hvalue⟩ := h key value List.mem_cons_self env env' henv
      have hitems := ih (fun key value hmem => h key value (List.mem_cons_of_mem _ hmem))
        (henv.afterEntry k v) hrest
      simp only [List.map_cons, DictItem.moved, evaluateItems, hkey k hk, ok_bind, hhash,
        hvalue v hv, hitems]

/-- An expression keeps its value on other lines, where more functions can be called and more names
read. -/
theorem evaluate_moved (hfs : fs.Within fs') {e : Expr} (henv : env.Below env') {v : Value}
    (hv : e.evaluate fs env = .ok v) : (e.moved lines).evaluate fs' env' = .ok v := by
  induction e using inductionOnParts generalizing env env' v with
  | node e ih =>
      cases e with
      | str line text => exact hv
      | tuple line items =>
          obtain ⟨vs, hvs, hv⟩ := bind_eq_ok.mp hv
          have hitems := evaluateAll_moved (fun s hs v hv => ih s (isPartOf_tuple hs) henv hv) hvs
          rw [moved_tuple]
          exact bind_eq_ok.mpr ⟨vs, hitems, hv⟩
      | list line items =>
          obtain ⟨vs, hvs, hv⟩ := bind_eq_ok.mp hv
          have hitems := evaluateAll_moved (fun s hs v hv => ih s (isPartOf_list hs) henv hv) hvs
          rw [moved_list]
          exact bind_eq_ok.mpr ⟨vs, hitems, hv⟩
      | dict line items =>
          obtain ⟨d, hd, hv⟩ := bind_eq_ok.mp hv
          rw [moved_dict]
          refine bind_eq_ok.mpr ⟨d, evaluateItems_moved ?_ henv hd, hv⟩
          intro key value hmem env env' henv
          obtain ⟨hkey, hvalue⟩ := isPartOf_dict hmem
          exact ⟨fun k hk => ih key hkey henv hk, fun v hv => ih value hvalue henv hv⟩
      | name line n =>
          rw [moved_name]
          simp only [evaluate] at hv ⊢
          split at hv
          · rename_i hlookup
            rw [henv.lookup hlookup]
            exact hv
          · cases hv
      | call line callee arguments keywords sequence mapping =>
          obtain ⟨_, n, f, vs, rfl, rfl, rfl, rfl, hstarred, hf, hvs, hv⟩ := evaluate_call_eq_ok hv
          have hregular : (arguments.map (moved lines)).any isStarred = false := by
            simpa [isStarred_moved] using hstarred
          have harguments :=
            evaluateAll_moved (fun s hs v hv => ih s (isPartOf_call hs) henv hv) hvs
          rw [moved_call, moved_name]
          simp only [evaluate, List.map_nil, Option.map_none, hregular, hfs n f hf,
            harguments, ok_bind]
          exact atLine_eq_ok.mpr hv
      | binary line op left right =>
          obtain ⟨operation, l, r, hop, hl, hr, hv⟩ := evaluate_binary_eq_ok hv
          have hleft := ih left ⟨.binaryLeft line op right, rfl⟩ henv hl
          have hright := ih right ⟨.binaryRight line op left, rfl⟩ henv hr
          rw [moved_binary]
          simp only [evaluate, hop, hleft, hright, ok_bind]
          exact atLine_eq_ok.mpr hv
      | boolean line op operands =>
          obtain ⟨left, right, l, rfl, hl, hv⟩ := evaluate_boolean_eq_ok hv
          have hleft := ih left (isPartOf_boolean List.mem_cons_self) henv hl
          rw [moved_boolean]
          simp only [List.map_cons, List.map_nil, evaluate, hleft, ok_bind]
          rcases hv with ⟨hdecides, rfl⟩ | ⟨hdecides, hr⟩
          · rw [if_pos hdecides]
            rfl
          · rw [if_neg (Bool.eq_false_iff.mp hdecides)]
            exact ih right (isPartOf_boolean (List.mem_cons_of_mem left List.mem_cons_self)) henv hr
      | unary line op operand =>
          cases op with
          | not =>
              obtain ⟨w, hw, hv⟩ := bind_eq_ok.mp hv
              exact bind_eq_ok.mpr ⟨w, ih operand ⟨.unaryOperand line .not, rfl⟩ henv hw, hv⟩
          | _ => cases hv
      | _ => cases hv

theorem evaluate_mono (hfs : fs.Within fs') {e : Expr} (henv : env.Below env') {v : Value}
    (hv : e.evaluate fs env = .ok v) : e.evaluate fs' env' = .ok v := by
  rw [← e.moved_id]
  exact evaluate_moved hfs henv hv

end Expr

end DepsManifest
