import DepsManifest.Evaluation.Manifest
import DepsManifest.Proofs.Evaluation.Environment
import DepsManifest.Proofs.Evaluation.Position
import DepsManifest.Proofs.Value.Dict
/-! # What evaluation keeps

A property of values is closed (`Value.Closed`) if it holds of what literals and constants denote,
and of whatever is made of values that have it: sequences, dicts entry by entry, numbers of numbers.
Evaluation keeps every such property. The induction over expressions is made once, here, and a
module that needs to know something of all values only checks the closure conditions.

## What is kept, and where

  * the value of an expression has the property, if the environment gives values with it and the
    functions keep it (`Expr.evaluate_closed`);
  * so has every name that can be read at any point on the way, whether or not the expression has a
    value in the end (`gives_of_visits`);
  * so has all that a manifest binds, if the variables that are set from outside have it
    (`executeManifest_closed`). The functions of a manifest are no assumption there: they give back
    what they are given, or what a variable holds (`keep_standard`).

## The one case with an argument

Every form but one is evaluated in the environment of the whole. A dict display is not: its entries
are put in one after the other, each in the environment that the ones before have left. For it the
environment and the dict so far are generalized together (`evaluateItems_closed`).
-/
namespace DepsManifest

/-- A property of values that evaluation keeps. -/
structure Value.Closed (P : Value → Prop) : Prop where
  null : P .null
  bool (b : Bool) : P (.bool b)
  str (s : String) : P (.str s)
  int {i : Int64} : P (.int i) → ∀ j, P (.int j)
  list_iff {items : List Value} : P (.list items) ↔ ∀ v ∈ items, P v
  tuple_iff {items : List Value} : P (.tuple items) ↔ ∀ v ∈ items, P v
  empty : P (.dict [])
  insert {entries : List (Value × Value)} {k v : Value} : P (.dict entries) → P k →
    k.unhashable? = none → P v → P (.dict (Dict.insertEntry k v entries))
  entry {entries : List (Value × Value)} : P (.dict entries) → ∀ e ∈ entries, P e.2

/-- Functions that have values with a property for arguments with it. -/
def Functions.Keep (P : Value → Prop) (fs : Functions) : Prop :=
  ∀ n f, fs.get? n = some f → ∀ vs v, (∀ a ∈ vs, P a) → f vs = .ok v → P v

/-- An environment in which names stand for values with a property. -/
def Environment.Gives (P : Value → Prop) (env : Environment) : Prop :=
  ∀ n v, env.lookup n = some v → P v

/-- A scope that binds names to values with a property. -/
def Scope.Binds (P : Value → Prop) (s : Scope) : Prop := ∀ n v, s.get? n = some v → P v

section Closed

variable {P : Value → Prop} (hP : Value.Closed P)

include hP

/-! ## Operators -/

namespace Value

theorem Closed.add {a b v : Value} (ha : P a) (hb : P b) (hv : Value.add a b = .ok v) : P v := by
  unfold Value.add at hv
  split at hv
  · cases hv
    exact hP.str _
  · cases hv
    exact hP.list_iff.mpr (List.forall_mem_append.mpr ⟨hP.list_iff.mp ha, hP.list_iff.mp hb⟩)
  · cases hv
    exact hP.tuple_iff.mpr (List.forall_mem_append.mpr ⟨hP.tuple_iff.mp ha, hP.tuple_iff.mp hb⟩)
  · simp only [addInts] at hv
    split at hv
    · cases hv
      exact hP.int ha _
    · cases hv
  · cases hv

theorem Closed.modulo {a b v : Value} (ha : P a) (hv : Value.modulo a b = .ok v) : P v := by
  unfold Value.modulo at hv
  split at hv
  · split at hv
    · cases hv
      exact hP.str _
    · cases hv
  · split at hv
    · cases hv
    · cases hv
      exact hP.int ha _
  · cases hv

theorem Closed.constant {n : String} {v : Value} (h : Environment.constant? n = some v) : P v := by
  unfold Environment.constant? at h
  split at h
  · cases h
    exact hP.null
  · split at h
    · cases h
      exact hP.bool true
    · split at h
      · cases h
        exact hP.bool false
      · cases h

end Value

/-! ## Environments -/

namespace Environment

theorem gives_initial (exposeVars : Bool) : (initial exposeVars).Gives P := by
  intro n v hv
  rw [initial, lookup_fresh] at hv
  exact hP.constant hv

omit hP in
theorem Gives.bind {env : Environment} (henv : env.Gives P) {name : String} {value : Value}
    (hvalue : P value) : (env.bind name value).Gives P := by
  intro n v hv
  cases hconstant : constant? name with
  | some _ =>
      rw [Environment.bind, hconstant] at hv
      exact henv n v hv
  | none =>
      rw [lookup_bind hconstant] at hv
      split at hv
      · cases hv
        exact hvalue
      · exact henv n v hv

omit hP in
theorem Gives.afterEntry {env : Environment} (henv : env.Gives P) (key : Value) {value : Value}
    (hvalue : P value) : (env.afterEntry key value).Gives P := by
  unfold Environment.afterEntry
  split
  · exact henv.bind hvalue
  · exact henv

end Environment

/-! ## Expressions -/

namespace Expr

variable {fs : Functions} {env : Environment}

omit hP in
theorem evaluateAll_closed {items : List Expr} {vs : List Value}
    (h : ∀ s ∈ items, ∀ v, s.evaluate fs env = .ok v → P v)
    (hvs : evaluateAll fs env items = .ok vs) : ∀ v ∈ vs, P v := by
  induction items generalizing vs with
  | nil =>
      cases hvs
      exact nofun
  | cons e items ih =>
      obtain ⟨hfirst, hrest⟩ := List.forall_mem_cons.mp h
      obtain ⟨v, hv, hvs⟩ := bind_eq_ok.mp hvs
      obtain ⟨rest, hall, hvs⟩ := bind_eq_ok.mp hvs
      cases hvs
      exact List.forall_mem_cons.mpr ⟨hfirst v hv, ih hrest hall⟩

theorem evaluateItems_closed {items : List DictItem}
    (h : ∀ key value, .entry key value ∈ items → ∀ env : Environment, env.Gives P →
      (∀ k, key.evaluate fs env = .ok k → P k) ∧ ∀ v, value.evaluate fs env = .ok v → P v)
    {line : Nat} {d d' : Dict} (hd : P (.dict d.entries)) (henv : env.Gives P)
    (hd' : evaluateItems fs env line d items = .ok d') : P (.dict d'.entries) := by
  induction items generalizing env d with
  | nil =>
      cases hd'
      exact hd
  | cons item items ih =>
      obtain ⟨key, value, k, v, rfl, hk, hhash, hv, hrest⟩ := evaluateItems_cons_eq_ok hd'
      obtain ⟨hkey, hvalue⟩ := h key value List.mem_cons_self env henv
      exact ih (fun key value hmem => h key value (List.mem_cons_of_mem _ hmem))
        (hP.insert hd (hkey k hk) hhash (hvalue v hv)) (henv.afterEntry k (hvalue v hv)) hrest

/-- What an expression evaluates to has a closed property. -/
theorem evaluate_closed (hfs : fs.Keep P) {e : Expr} (henv : env.Gives P) {v : Value}
    (hv : e.evaluate fs env = .ok v) : P v := by
  induction e using inductionOnParts generalizing env v with
  | node e ih =>
      cases e with
      | str line text =>
          cases hv
          exact hP.str text
      | tuple line items =>
          obtain ⟨vs, hvs, hv⟩ := bind_eq_ok.mp hv
          cases hv
          exact hP.tuple_iff.mpr
            (evaluateAll_closed (fun s hs v hv => ih s (isPartOf_tuple hs) henv hv) hvs)
      | list line items =>
          obtain ⟨vs, hvs, hv⟩ := bind_eq_ok.mp hv
          cases hv
          exact hP.list_iff.mpr
            (evaluateAll_closed (fun s hs v hv => ih s (isPartOf_list hs) henv hv) hvs)
      | dict line items =>
          obtain ⟨d, hd, hv⟩ := bind_eq_ok.mp hv
          cases hv
          refine evaluateItems_closed hP (fun key value hmem env henv => ?_) hP.empty henv hd
          obtain ⟨hkey, hvalue⟩ := isPartOf_dict hmem
          exact ⟨fun k hk => ih key hkey henv hk, fun v hv => ih value hvalue henv hv⟩
      | name line n =>
          simp only [evaluate] at hv
          split at hv
          · rename_i hlookup
            cases hv
            exact henv n _ hlookup
          · cases hv
      | call line callee arguments keywords sequence mapping =>
          obtain ⟨_, n, f, vs, -, -, -, -, -, hf, hvs, hv⟩ := evaluate_call_eq_ok hv
          exact hfs n f hf vs v
            (evaluateAll_closed (fun s hs v hv => ih s (isPartOf_call hs) henv hv) hvs) hv
      | binary line op left right =>
          obtain ⟨operation, l, r, hop, hl, hr, hv⟩ := evaluate_binary_eq_ok hv
          have hleft : P l := ih left ⟨.binaryLeft line op right, rfl⟩ henv hl
          have hright : P r := ih right ⟨.binaryRight line op left, rfl⟩ henv hr
          cases op with
          | add =>
              cases hop
              exact hP.add hleft hright hv
          | modulo =>
              cases hop
              exact hP.modulo hleft hv
          | _ => cases hop
      | boolean line op operands =>
          obtain ⟨left, right, l, rfl, hl, hv⟩ := evaluate_boolean_eq_ok hv
          rcases hv with ⟨-, rfl⟩ | ⟨-, hr⟩
          · exact ih left (isPartOf_boolean List.mem_cons_self) henv hl
          · exact ih right (isPartOf_boolean (List.mem_cons_of_mem left List.mem_cons_self)) henv hr
      | unary line op operand =>
          cases op with
          | not =>
              obtain ⟨w, -, hv⟩ := bind_eq_ok.mp hv
              cases hv
              exact hP.bool _
          | _ => cases hv
      | _ => cases hv

theorem value_closed (hfs : fs.Keep P) {exposeVars : Bool} {e : Expr} {v : Value}
    (hv : e.value fs exposeVars = .ok v) : P v :=
  evaluate_closed hP hfs (Environment.gives_initial hP exposeVars) hv

end Expr

/-! ## Everything that is evaluated on the way -/

section

variable {fs : Functions} (hfs : fs.Keep P)

include hfs

theorem Environment.Gives.afterItems {env : Environment} (henv : env.Gives P)
    (items : List DictItem) : (env.afterItems fs items).Gives P := by
  induction items generalizing env with
  | nil => exact henv
  | cons item items ih =>
      cases item with
      | unpack _ => exact henv
      | entry key value =>
          rw [Environment.afterItems]
          split
          · rename_i k v _ hv
            exact ih (henv.afterEntry k (Expr.evaluate_closed hP hfs henv hv))
          · exact henv

/-- Names stand for values with a closed property wherever a part of an expression is evaluated,
whether or not the expression has a value in the end. -/
theorem gives_of_visits {env env' : Environment} {e s : Expr} (h : Visits fs env e env' s)
    (henv : env.Gives P) : env'.Gives P := by
  induction h with
  | self env e => exact henv
  | @operand env env' f p s _ _ ih =>
      refine ih ?_
      cases f with
      | dictKey line before value after => exact henv.afterItems hP hfs before
      | dictValue line before key after => exact henv.afterItems hP hfs before
      | _ => exact henv

end

/-! ## Functions of manifests -/

namespace Functions

omit hP in
theorem Keep.insert {fs : Functions} (hfs : fs.Keep P) {name : String} {f : Function}
    (hf : ∀ vs v, (∀ a ∈ vs, P a) → f vs = .ok v → P v) : (fs.insert name f).Keep P := by
  intro n g hg
  rw [get?, Functions.insert, NameMap.get?_insert] at hg
  split at hg
  · cases hg
    exact hf
  · exact hfs n g hg

omit hP in
theorem keep_ofString {name : String} {f : String → Except String Value}
    (hf : ∀ s v, f s = .ok v → P v) (vs : List Value) (v : Value)
    (hv : ofString name f vs = .ok v) : P v := by
  unfold ofString at hv
  split at hv
  · exact hf _ v hv
  · cases hv
  · cases hv

theorem keep_strOnly : strOnly.Keep P := by
  have hempty : Functions.empty.Keep P := by
    intro n f hf
    cases hf
  refine hempty.insert fun vs v _ => keep_ofString (fun s v hv => ?_) vs v
  cases hv
  exact hP.str s

/-- The functions of a manifest keep what holds of its variables. -/
theorem keep_standard {manifestVars : Dict} {customVars : NameMap Value}
    (hmanifest : P (.dict manifestVars.entries))
    (hcustom : ∀ n v, customVars.get? n = some v → P v) :
    (standard manifestVars customVars).Keep P := by
  refine (keep_strOnly hP).insert fun vs v _ => keep_ofString (fun name v hv => ?_) vs v
  split at hv
  · rename_i value hvalue
    cases hv
    cases hset : customVars.get? name with
    | some set =>
        rw [varValue?, hset] at hvalue
        cases hvalue
        exact hcustom name _ hset
    | none =>
        rw [varValue?, hset] at hvalue
        exact hP.entry hmanifest _ (Dict.mem_of_getString? hvalue)
  · cases hv

end Functions

/-! ## Manifests -/

omit hP in
theorem Scope.Binds.bind {s s' : Scope} (hs : s.Binds P) {name : String} {value : Value}
    {line : Option Nat} (hvalue : P value) (h : s.bind name value line = .ok s') : s'.Binds P := by
  unfold Scope.bind at h
  split at h
  · cases h
  · cases h
    intro n v hv
    rw [get?, NameMap.get?_insert] at hv
    split at hv
    · cases hv
      exact hvalue
    · exact hs n v hv

theorem Statement.execute_closed {fs : Functions} (hfs : fs.Keep P) {s s' : Scope} (hs : s.Binds P)
    {statement : Statement} (h : statement.execute fs s = .ok s') : s'.Binds P := by
  unfold Statement.execute at h
  split at h
  · cases h
  · split at h
    · cases h
    · rename_i value hvalue
      split at h
      · cases h
      · rename_i hbind
        cases h
        exact hs.bind (Expr.value_closed hP hfs hvalue) hbind

namespace Module

theorem executeFrom_closed {fs : Functions} (hfs : fs.Keep P) {s s' : Scope} (hs : s.Binds P)
    {statements : List Statement} (h : executeFrom fs s statements = .ok s') : s'.Binds P := by
  induction statements generalizing s with
  | nil =>
      cases h
      exact hs
  | cons statement statements ih =>
      obtain ⟨next, hnext, h⟩ := bind_eq_ok.mp h
      exact ih (statement.execute_closed hP hfs hs hnext) h

theorem manifestVars_closed {m : Module} {vars : Dict} (h : m.manifestVars = .ok vars) :
    P (.dict vars.entries) := by
  unfold manifestVars at h
  split at h
  · cases h
    exact hP.empty
  · obtain ⟨v, hv, h⟩ := bind_eq_ok.mp h
    have hvalue : P v := Expr.value_closed hP (Functions.keep_strOnly hP) hv
    cases v with
    | dict entries =>
        cases h
        exact hvalue
    | _ =>
        cases h
        exact hP.empty

end Module

/-- What a manifest binds has a closed property that the variables set from outside have. -/
theorem executeManifest_closed {customVars : NameMap Value}
    (hcustom : ∀ n v, customVars.get? n = some v → P v) {text : String} {s : Scope}
    (h : executeManifest customVars text = .ok s) : s.Binds P := by
  unfold executeManifest at h
  split at h
  · cases h
  · rename_i m _
    unfold Module.executeManifest at h
    split at h
    · cases h
    · rename_i vars hvars
      have hfs : (Functions.standard vars customVars).Keep P :=
        Functions.keep_standard hP (m.manifestVars_closed hP hvars) hcustom
      have hempty : Scope.empty.Binds P := by
        intro n v hv
        cases hv
      exact Module.executeFrom_closed hP hfs hempty h

end Closed

end DepsManifest
