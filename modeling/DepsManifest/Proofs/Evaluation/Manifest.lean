import DepsManifest.Proofs.Evaluation.Extension
import DepsManifest.Proofs.Evaluation.Module
/-! # The variables of a manifest

`Var` looks a variable up in a dict. The program evaluates that dict before it executes the
manifest, with fewer functions, and from the first statement that assigns to `vars`.

## It is the dict that the manifest binds

`Module.executeManifest_reads_own_vars` says that none of this can be noticed. If a manifest can be
executed, the dict that was evaluated first is the one that it goes on to bind to `vars`, and every
call of `Var` that is evaluated on the way gives what was set from outside under its name, and
otherwise what stands under it in that dict. Three steps lead there:

  * what has a value with `Str` alone keeps it with `Var` (`Expr.evaluate_mono`, `Binds.mono`), so
    the statement that was evaluated first binds the same value later;
  * a manifest that can be executed has no second statement for `vars`, so the first one is the only
    one (`vars_eq_ownVars`);
  * what it binds there is a matter of its statements and `Str`, so it is the same whatever is set
    from outside (`binds_vars_iff`).

## Order

So `Var` may stand before `vars` and after it, and the statements in any order
(`Module.executeManifest_perm`): the scope is the same, and each name stands at the line of the
statement that assigns to it. Lines belong to the statements and go along with them.
-/
namespace DepsManifest

/-- The dict that a scope binds `vars` to; an empty one if it binds `vars` to none. -/
def Scope.ownVars (s : Scope) : Dict := ((s.get? varsName).bind Value.toDict?).getD .empty

namespace Statement

variable {s : Statement}

theorem varsExpr?_eq_some_iff {e : Expr} :
    s.varsExpr? = some e ↔ s.assignment = .ok (varsName, e) := by
  unfold varsExpr?
  cases s.assignment with
  | error fault => exact ⟨nofun, nofun⟩
  | ok target =>
      obtain ⟨name, e'⟩ := target
      by_cases hname : name = varsName
      · subst hname
        simp
      · simp [hname]

/-- What a statement binds with some functions it binds with more of them. -/
theorem Binds.mono {fs fs' : Functions} (hfs : fs.Within fs') {entry : String × Binding}
    (h : s.Binds fs entry) : s.Binds fs' entry := by
  obtain ⟨e, v, hassign, hv, hb⟩ := h
  exact ⟨e, v, hassign, Expr.evaluate_mono hfs (.inl rfl) hv, hb⟩

end Statement

namespace Module

variable {customVars : NameMap Value} {m : Module} {scope : Scope}

theorem executeManifest_eq_ok_iff : m.executeManifest customVars = .ok scope ↔
    ∃ vars, m.manifestVars = .ok vars ∧ m.execute (.standard vars customVars) = .ok scope := by
  unfold executeManifest
  cases m.manifestVars with
  | error fault => exact ⟨nofun, nofun⟩
  | ok vars =>
      constructor
      · intro h
        exact ⟨vars, rfl, h⟩
      · rintro ⟨vars', hvars, h⟩
        cases hvars
        exact h

/-! ## The variables evaluated first -/

section

variable {vars : Dict} (hvars : m.manifestVars = .ok vars)

include hvars

theorem exists_binds_strOnly {e : Expr} (he : m.body.findSome? Statement.varsExpr? = some e) :
    ∃ s ∈ m.body, ∃ v, s.Binds .strOnly (varsName, ⟨v, some s.line⟩) ∧
      vars = v.toDict?.getD .empty := by
  obtain ⟨s, hs, hexpr⟩ := List.exists_of_findSome?_eq_some he
  rw [manifestVars, he] at hvars
  obtain ⟨v, hv, hresult⟩ := bind_eq_ok.mp hvars
  cases hresult
  exact ⟨s, hs, v, ⟨e, v, Statement.varsExpr?_eq_some_iff.mp hexpr, hv, rfl⟩, rfl⟩

variable (hexecute : m.execute (.standard vars customVars) = .ok scope)

include hexecute

/-- A manifest binds `vars` to what it stands for with `Str` alone. -/
theorem binds_vars_iff {b : Binding} :
    scope.bindings.get? varsName = some b ↔ ∃ s ∈ m.body, s.Binds .strOnly (varsName, b) := by
  have hmore := Functions.strOnly_within_standard vars customVars
  constructor
  · intro hb
    obtain ⟨s, hs, hbinds⟩ := exists_binds hexecute hb
    obtain ⟨e, he⟩ : ∃ e, m.body.findSome? Statement.varsExpr? = some e := by
      obtain ⟨e, v, hassign, -, -⟩ := hbinds
      refine Option.isSome_iff_exists.mp (List.findSome?_isSome_iff.mpr ⟨s, hs, ?_⟩)
      rw [Statement.varsExpr?_eq_some_iff.mpr hassign]
      rfl
    obtain ⟨s', hs', v, hfirst, -⟩ := exists_binds_strOnly hvars he
    have hsame : s = s' := by
      refine eq_of_target?_eq hexecute hs hs' ?_
      rw [hbinds.target?_eq, hfirst.target?_eq]
    subst hsame
    have hentry := (hfirst.mono hmore).unique hbinds
    rw [← hentry]
    exact ⟨s, hs, hfirst⟩
  · rintro ⟨s, hs, hbinds⟩
    obtain ⟨entry, hentry, hget⟩ := exists_get?_of_mem hexecute hs
    rw [hentry.unique (hbinds.mono hmore)] at hget
    exact hget

/-- The variables that are evaluated first are those that the manifest binds. -/
theorem vars_eq_ownVars : vars = scope.ownVars := by
  cases hfirst : m.body.findSome? Statement.varsExpr? with
  | none =>
      have hunbound : scope.bindings.get? varsName = none := by
        refine Option.eq_none_iff_forall_ne_some.mpr fun b hb => ?_
        obtain ⟨s, hs, e, v, hassign, -, -⟩ := (binds_vars_iff hvars hexecute).mp hb
        have hnone := List.findSome?_eq_none_iff.mp hfirst s hs
        rw [Statement.varsExpr?_eq_some_iff.mpr hassign] at hnone
        cases hnone
      rw [manifestVars, hfirst] at hvars
      cases hvars
      rw [Scope.ownVars, Scope.get?, hunbound]
      rfl
  | some e =>
      obtain ⟨s, hs, v, hbinds, rfl⟩ := exists_binds_strOnly hvars hfirst
      have hbound := (binds_vars_iff hvars hexecute).mpr ⟨s, hs, hbinds⟩
      rw [Scope.ownVars, Scope.get?, hbound]
      rfl

end

variable (h : m.executeManifest customVars = .ok scope)

include h

theorem manifestVars_eq : m.manifestVars = .ok scope.ownVars ∧
    m.execute (.standard scope.ownVars customVars) = .ok scope := by
  obtain ⟨vars, hvars, hexecute⟩ := executeManifest_eq_ok_iff.mp h
  obtain rfl := vars_eq_ownVars hvars hexecute
  exact ⟨hvars, hexecute⟩

theorem get?_vars_iff {b : Binding} :
    scope.bindings.get? varsName = some b ↔ ∃ s ∈ m.body, s.Binds .strOnly (varsName, b) :=
  binds_vars_iff (manifestVars_eq h).1 (manifestVars_eq h).2

omit h

end Module

/-! ## Calls of `Var` -/

namespace Functions

theorem ofString_eq_ok_iff {name : String} {f : String → Except String Value} {vs : List Value}
    {v : Value} : ofString name f vs = .ok v ↔ ∃ s, vs = [.str s] ∧ f s = .ok v := by
  constructor
  · intro h
    unfold ofString at h
    split at h
    · exact ⟨_, rfl, h⟩
    · cases h
    · cases h
  · rintro ⟨s, rfl, h⟩
    exact h

theorem varValue?_eq_some_iff {manifestVars : Dict} {customVars : NameMap Value} {name : String}
    {v : Value} : varValue? manifestVars customVars name = some v ↔
      customVars.get? name = some v ∨
        customVars.get? name = none ∧ manifestVars.getString? name = some v := by
  rw [varValue?]
  cases customVars.get? name with
  | none => simp
  | some set => simp

end Functions

theorem Scope.getString?_ownVars {scope : Scope} {name : String} {v : Value} :
    scope.ownVars.getString? name = some v ↔ ∃ entries, scope.get? varsName = some (.dict entries) ∧
      (⟨entries⟩ : Dict).getString? name = some v := by
  rw [ownVars]
  cases scope.get? varsName with
  | none => exact ⟨nofun, nofun⟩
  | some bound =>
      cases bound with
      | dict entries =>
          constructor
          · intro h
            exact ⟨entries, rfl, h⟩
          · rintro ⟨entries', heq, h⟩
            cases heq
            exact h
      | _ => exact ⟨nofun, nofun⟩

/-- A call of `Var` that has a value is given one name, and has the value of the variable. -/
theorem Expr.evaluate_var_eq_ok {manifestVars : Dict} {customVars : NameMap Value}
    {env : Environment} {line nameLine : Nat} {arguments : List Expr} {keywords : List Keyword}
    {sequence mapping : Option Expr} {v : Value}
    (h : (Expr.call line (.name nameLine "Var") arguments keywords sequence mapping).evaluate
      (.standard manifestVars customVars) env = .ok v) :
    ∃ name, evaluateAll (.standard manifestVars customVars) env arguments = .ok [.str name] ∧
      Functions.varValue? manifestVars customVars name = some v := by
  obtain ⟨_, n, f, vs, hname, -, -, -, -, hf, hvs, hv⟩ := evaluate_call_eq_ok h
  cases hname
  rw [Functions.get?, Functions.standard, Functions.insert, NameMap.get?_insert, if_pos rfl] at hf
  cases hf
  obtain ⟨name, rfl, hresult⟩ := Functions.ofString_eq_ok_iff.mp hv
  refine ⟨name, hvs, ?_⟩
  split at hresult
  · rename_i hvalue
    cases hresult
    exact hvalue
  · cases hresult

/-- The variables that are evaluated before a manifest is executed are those that it binds to
`vars`. So every call of `Var` that is evaluated on the way gives what was set from outside under
its name, and otherwise what stands under it in the dict that the manifest binds to `vars`; and that
binding is the same whatever is set from outside. -/
theorem executeManifest_reads_own_vars {customVars : NameMap Value} {text : String} {scope : Scope}
    (h : executeManifest customVars text = .ok scope) :
    ∃ m, Module.ofText text = .ok m ∧ m.manifestVars = .ok scope.ownVars ∧
      m.execute (.standard scope.ownVars customVars) = .ok scope ∧
      (∀ s ∈ m.body, ∀ target e, s.assignment = .ok (target, e) →
        ∀ env line nameLine arguments keywords sequence mapping,
          Visits (.standard scope.ownVars customVars) (.initial (target == varsName)) e env
            (.call line (.name nameLine "Var") arguments keywords sequence mapping) →
          ∃ name v,
            Expr.evaluateAll (.standard scope.ownVars customVars) env arguments =
              .ok [.str name] ∧
            (Expr.call line (.name nameLine "Var") arguments keywords sequence mapping).evaluate
              (.standard scope.ownVars customVars) env = .ok v ∧
            (customVars.get? name = some v ∨ customVars.get? name = none ∧
              ∃ entries, scope.get? varsName = some (.dict entries) ∧
                (⟨entries⟩ : Dict).getString? name = some v)) ∧
      ∀ customVars' scope', executeManifest customVars' text = .ok scope' →
        scope'.bindings.get? varsName = scope.bindings.get? varsName := by
  unfold executeManifest at h
  cases htext : Module.ofText text with
  | error fault =>
      rw [htext] at h
      cases h
  | ok m =>
      rw [htext] at h
      obtain ⟨hvars, hexecute⟩ := Module.manifestVars_eq h
      refine ⟨m, rfl, hvars, hexecute, ?_, ?_⟩
      · intro s hs target e hassign env line nameLine arguments keywords sequence mapping hvisits
        obtain ⟨entry, ⟨e', v', hassign', hv', -⟩, -⟩ := Module.exists_get?_of_mem hexecute hs
        rw [hassign] at hassign'
        cases hassign'
        obtain ⟨v, hv⟩ := Expr.evaluate_eq_ok_of_visits hvisits hv'
        obtain ⟨name, harguments, hvalue⟩ := Expr.evaluate_var_eq_ok hv
        refine ⟨name, v, harguments, hv, ?_⟩
        rw [← Scope.getString?_ownVars]
        exact Functions.varValue?_eq_some_iff.mp hvalue
      · intro customVars' scope' h'
        unfold executeManifest at h'
        rw [htext] at h'
        refine Option.ext fun b => ?_
        rw [Module.get?_vars_iff h', Module.get?_vars_iff h]

def variableAndUse : Module :=
  ⟨[.assign 1 [.name 1 "vars"] (.dict 1 [.entry (.str 1 "a") (.str 1 "x")]),
    .assign 2 [.name 2 "d"] (.call 2 (.name 2 "Var") [.str 2 "a"] [] none none)]⟩

def variableAndUseScope : Scope :=
  ⟨⟨[("d", ⟨.str "x", some 2⟩), ("vars", ⟨.dict [(.str "a", .str "x")], some 1⟩)], by decide⟩⟩

theorem ofText_variableAndUse :
    Module.ofText "vars=\x7b'a':'x'\x7d\nd=Var('a')" = .ok variableAndUse := by
  have htokens : Token.ofText "vars=\x7b'a':'x'\x7d\nd=Var('a')" = .ok
      [⟨.name "vars", 1, 0⟩, ⟨.op .assign, 1, 4⟩, ⟨.op .leftBrace, 1, 5⟩,
      ⟨.literal .text "a", 1, 6⟩,
        ⟨.op .colon, 1, 9⟩, ⟨.literal .text "x", 1, 10⟩, ⟨.op .rightBrace, 1, 13⟩,
        ⟨.newline, 1, 14⟩, ⟨.name "d", 2, 0⟩, ⟨.op .assign, 2, 1⟩, ⟨.name "Var", 2, 2⟩,
        ⟨.op .leftParen, 2, 5⟩, ⟨.literal .text "a", 2, 6⟩, ⟨.op .rightParen, 2, 9⟩,
        ⟨.newline, 2, 0⟩, ⟨.endOfText, 2, 0⟩] := by decide +kernel
  rw [Module.ofText, htokens]
  rfl

/-- `d` is read from the dict, and not from what is set under another name. -/
theorem executeManifest_reads_own_vars_other_set :
    executeManifest (.ofList [("b", .str "y")]) "vars=\x7b'a':'x'\x7d\nd=Var('a')" =
      .ok variableAndUseScope ∧
    variableAndUse.manifestVars = .ok ⟨[(.str "a", .str "x")]⟩ := by
  have h : executeManifest (.ofList [("b", .str "y")]) "vars=\x7b'a':'x'\x7d\nd=Var('a')" =
      .ok variableAndUseScope := by
    rw [executeManifest, ofText_variableAndUse]
    rfl
  obtain ⟨m, hm, hvars, -⟩ := executeManifest_reads_own_vars h
  rw [ofText_variableAndUse] at hm
  cases hm
  exact ⟨h, hvars⟩

namespace Module

variable {customVars : NameMap Value} {m : Module} {scope : Scope}

/-! ## Order -/

theorem manifestVars_perm {m' : Module} (hperm : m.body.Perm m'.body) {fs : Functions}
    (hexecute : m.execute fs = .ok scope) : m'.manifestVars = m.manifestVars := by
  have hfirst : m'.body.findSome? Statement.varsExpr? = m.body.findSome? Statement.varsExpr? := by
    cases hfind : m.body.findSome? Statement.varsExpr? with
    | none =>
        refine List.findSome?_eq_none_iff.mpr fun s hs => ?_
        exact List.findSome?_eq_none_iff.mp hfind s (hperm.mem_iff.mpr hs)
    | some e =>
        obtain ⟨s, hs, he⟩ := List.exists_of_findSome?_eq_some hfind
        obtain ⟨e', he'⟩ : ∃ e', m'.body.findSome? Statement.varsExpr? = some e' := by
          refine Option.isSome_iff_exists.mp (List.findSome?_isSome_iff.mpr
            ⟨s, hperm.mem_iff.mp hs, ?_⟩)
          rw [he]
          rfl
        obtain ⟨s', hs', hexpr⟩ := List.exists_of_findSome?_eq_some he'
        have hassign := Statement.varsExpr?_eq_some_iff.mp he
        have hassign' := Statement.varsExpr?_eq_some_iff.mp hexpr
        have hsame : s = s' := by
          refine eq_of_target?_eq hexecute hs (hperm.mem_iff.mpr hs') ?_
          rw [Statement.target?, Statement.target?, hassign, hassign']
          rfl
        subst hsame
        rw [hassign] at hassign'
        cases hassign'
        exact he'
  rw [manifestVars, manifestVars, hfirst]

/-- A manifest whose statements stand in another order defines the same, each name at the line of
the one statement that assigns to it. -/
theorem executeManifest_perm {m' : Module} (hperm : m.body.Perm m'.body)
    (h : m.executeManifest customVars = .ok scope) :
    m'.executeManifest customVars = .ok scope ∧
      (∀ name, scope.contains name = true ↔ ∃ s ∈ m'.body, s.target? = some name) ∧
      ∀ s ∈ m'.body, ∃ name, s.target? = some name ∧ scope.lineOf? name = some s.line := by
  obtain ⟨vars, hvars, hexecute⟩ := executeManifest_eq_ok_iff.mp h
  have hexecute' := execute_perm hperm hexecute
  have hlines : ∀ s ∈ m'.body, ∃ name, s.target? = some name ∧
      ∃ b, scope.bindings.get? name = some b ∧ b.line = some s.line := by
    intro s hs
    obtain ⟨⟨name, b⟩, hbinds, hget⟩ := exists_get?_of_mem hexecute' hs
    obtain ⟨e, v, -, -, hb⟩ := id hbinds
    exact ⟨name, hbinds.target?_eq, b, hget, congrArg Binding.line hb⟩
  refine ⟨?_, fun name => ⟨fun hname => ?_, ?_⟩, fun s hs => ?_⟩
  · refine executeManifest_eq_ok_iff.mpr ⟨vars, ?_, hexecute'⟩
    rw [manifestVars_perm hperm hexecute]
    exact hvars
  · obtain ⟨b, hb⟩ := Option.isSome_iff_exists.mp hname
    obtain ⟨s, hs, hbinds⟩ := exists_binds hexecute' hb
    exact ⟨s, hs, hbinds.target?_eq⟩
  · rintro ⟨s, hs, htarget⟩
    obtain ⟨name', htarget', b, hb, -⟩ := hlines s hs
    rw [htarget] at htarget'
    cases htarget'
    exact Option.isSome_iff_exists.mpr ⟨b, hb⟩
  · obtain ⟨name, htarget, b, hb, hline⟩ := hlines s hs
    refine ⟨name, htarget, ?_⟩
    rw [Scope.lineOf?, hb]
    exact hline

/-- The dict may stand after the variable of it. -/
theorem executeManifest_perm_use_first :
    variableAndUse.body.Perm variableAndUse.body.reverse ∧
      variableAndUse.executeManifest .empty = .ok variableAndUseScope ∧
      (Module.mk variableAndUse.body.reverse).executeManifest .empty = .ok variableAndUseScope := by
  have hperm : variableAndUse.body.Perm variableAndUse.body.reverse :=
    (List.reverse_perm _).symm
  have h : variableAndUse.executeManifest .empty = .ok variableAndUseScope := rfl
  exact ⟨hperm, h, (executeManifest_perm hperm h).1⟩

end Module

end DepsManifest
