import DepsManifest.Proofs.Evaluation.Extension
import DepsManifest.Proofs.Evaluation.Module
/-! # Assignments to `vars`

Only in the assignment of `vars` does a dict display show its entries to the entries after them.
`Module.renamed_vars` says what the special name is worth:

  * to show entries can give an expression a value that it did not have, and it changes no value
    that there was (`Expr.value_shown`). An expression that has a value where nothing is shown reads
    the constants alone, and no entry can hide a constant, whatever its key;
  * so an assignment that can be executed can be given the name `vars`, as long as no other
    statement has it, and it binds there what it bound before, at the line that it bound it at.

The renaming is of targets (`Statement.renamed`, `Scope.renamed`), for any name that some statement
assigns to, and the names in expressions stay as they are: none of them refers to a target. The
hypothesis on other statements is what keeps the targets distinct after it (`inPlace_inj_on`);
without it the module would fail with a duplicate.

The other direction is not claimed. An expression may need to be shown its entries, and then the
statement cannot be executed under another name.
-/
namespace DepsManifest

theorem Expr.value_shown {fs : Functions} {e : Expr} {v : Value} (hv : e.value fs false = .ok v) :
    e.value fs true = .ok v := by
  rw [value_eq] at hv ⊢
  exact evaluate_mono (.refl fs) (.inr rfl) hv

/-! ## Names in place of names -/

def inPlace (name name' n : String) : String := if n = name then name' else n

/-- A statement that assigns to `name'` where it assigned to `name`. -/
def Statement.renamed (name name' : String) : Statement → Statement
  | .assign line [.name l n] value => .assign line [.name l (inPlace name name' n)] value
  | s => s

/-- A module that assigns to `name'` where it assigned to `name`. -/
def Module.renamed (name name' : String) (m : Module) : Module :=
  ⟨m.body.map (Statement.renamed name name')⟩

/-- A scope that has `name'` where it had `name`. -/
def Scope.renamed (name name' : String) (s : Scope) : Scope :=
  ⟨.ofList (s.bindings.entries.map fun e => (inPlace name name' e.1, e.2))⟩

variable {name name' : String}

theorem inPlace_inj_on {names : List String} (hfree : name' ∈ names → name = name') :
    ∀ a ∈ names, ∀ b ∈ names, inPlace name name' a = inPlace name name' b → a = b := by
  intro a ha b hb heq
  unfold inPlace at heq
  split at heq <;> split at heq
  · rename_i hna hnb
    exact hna.trans hnb.symm
  · rename_i hna hnb
    subst heq
    exact absurd (hfree hb).symm hnb
  · rename_i hna hnb
    subst heq
    exact absurd (hfree ha).symm hna
  · exact heq

/-! ## Statements and modules -/

namespace Statement

variable {fs : Functions} {s : Statement}

theorem line_renamed : (s.renamed name name').line = s.line := by
  unfold renamed
  split <;> rfl

theorem assignment_renamed {n : String} {e : Expr} (h : s.assignment = .ok (n, e)) :
    (s.renamed name name').assignment = .ok (inPlace name name' n, e) := by
  unfold assignment at h
  split at h
  · cases h
    rfl
  · cases h
  · cases h
  · cases h

/-- What a statement binds it binds under `vars`, if that is its name now. -/
theorem Binds.renamed {entry : String × Binding} (h : s.Binds fs entry) :
    (s.renamed name varsName).Binds fs (inPlace name varsName entry.1, entry.2) := by
  obtain ⟨e, v, hassign, hv, hb⟩ := h
  refine ⟨e, v, assignment_renamed hassign, ?_, by rw [line_renamed]; exact hb⟩
  by_cases hname : entry.1 = name
  · rw [inPlace, if_pos hname, beq_self_eq_true]
    cases hshown : entry.1 == varsName with
    | true =>
        rw [hshown] at hv
        exact hv
    | false =>
        rw [hshown] at hv
        exact Expr.value_shown hv
  · rw [inPlace, if_neg hname]
    exact hv

end Statement

namespace Module

variable {fs : Functions} {m : Module} {scope : Scope}

theorem renamed_ofList {entries : List (String × Binding)} (hnodup : (entries.map (·.1)).Nodup)
    (hrenamed : ((entries.map fun e => (inPlace name name' e.1, e.2)).map (·.1)).Nodup) :
    (Scope.mk (.ofList entries)).renamed name name' =
      ⟨.ofList (entries.map fun e => (inPlace name name' e.1, e.2))⟩ :=
  congrArg Scope.mk
    (NameMap.ofList_perm ((NameMap.entries_ofList_perm hnodup).symm.map _) hrenamed).symm

/-- A module can be executed with `vars` put in place of a name that one of its statements assigns
to. -/
theorem execute_renamed (h : m.execute fs = .ok scope)
    (hfree : ∀ s ∈ m.body, s.target? = some varsName → name = varsName) :
    (m.renamed name varsName).execute fs = .ok (scope.renamed name varsName) := by
  obtain ⟨entries, hbinds, hnodup, rfl⟩ := execute_eq_ok_iff.mp h
  have hvars : varsName ∈ entries.map (·.1) → name = varsName := by
    intro hmem
    obtain ⟨entry, hentry, heq⟩ := List.mem_map.mp hmem
    obtain ⟨s, hs, hsentry⟩ := exists_of_forall₂ hbinds.flip hentry
    exact hfree s hs (heq ▸ Statement.Binds.target?_eq hsentry)
  have hrenamed : ((entries.map fun e => (inPlace name varsName e.1, e.2)).map (·.1)).Nodup := by
    rw [List.map_map]
    have hmap : (Prod.fst ∘ fun e : String × Binding => (inPlace name varsName e.1, e.2)) =
        inPlace name varsName ∘ Prod.fst := rfl
    rw [hmap, ← List.map_map]
    exact (List.nodup_map_iff_inj_on hnodup).mpr (inPlace_inj_on hvars)
  refine execute_eq_ok_iff.mpr ⟨_, ?_, hrenamed, renamed_ofList hnodup hrenamed⟩
  exact List.forall₂_map_left_iff.mpr (List.forall₂_map_right_iff.mpr
    (hbinds.imp fun s entry hentry => hentry.renamed))

/-- To show the entries of dict displays changes no value that there was. So a module whose
statements can be executed can be executed with `vars` put in place of any name that it assigns to,
as long as no other of its statements assigns to `vars`, and defines the same but for the name. -/
theorem renamed_vars (fs : Functions) :
    (∀ e v, Expr.value fs false e = .ok v → Expr.value fs true e = .ok v) ∧
      ∀ (m : Module) scope name, m.execute fs = .ok scope →
        (∀ s ∈ m.body, s.target? = some varsName → name = varsName) →
        (m.renamed name varsName).execute fs = .ok (scope.renamed name varsName) :=
  ⟨fun _ _ hv => Expr.value_shown hv, fun _ _ _ h hfree => execute_renamed h hfree⟩

/-- `x = {'True': 'n', 'b': True}` and `y = 'z'`: under `vars` too, `True` is the constant. -/
theorem renamed_vars_constant :
    Expr.value .strOnly true (.dict 1 [.entry (.str 1 "True") (.str 1 "n"),
        .entry (.str 1 "b") (.name 1 "True")]) =
      .ok (.dict [(.str "True", .str "n"), (.str "b", .bool true)]) ∧
    (renamed "x" varsName
      ⟨[.assign 1 [.name 1 "x"] (.dict 1 [.entry (.str 1 "True") (.str 1 "n"),
          .entry (.str 1 "b") (.name 1 "True")]),
        .assign 2 [.name 2 "y"] (.str 2 "z")]⟩).execute .strOnly =
      .ok ⟨⟨[("vars", ⟨.dict [(.str "True", .str "n"), (.str "b", .bool true)], some 1⟩),
        ("y", ⟨.str "z", some 2⟩)], by decide⟩⟩ := by
  refine ⟨(renamed_vars .strOnly).1 _ _ rfl, (renamed_vars .strOnly).2 _
    ⟨⟨[("x", ⟨.dict [(.str "True", .str "n"), (.str "b", .bool true)], some 1⟩),
      ("y", ⟨.str "z", some 2⟩)], by decide⟩⟩ "x" rfl ?_⟩
  intro s hs htarget
  rcases List.mem_pair.mp hs with rfl | rfl
  · exact absurd htarget (by decide)
  · exact absurd htarget (by decide)

end Module

end DepsManifest
