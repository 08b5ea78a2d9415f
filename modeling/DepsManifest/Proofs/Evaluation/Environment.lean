import DepsManifest.Evaluation.Expr
import DepsManifest.Proofs.NameMap
/-! # Laws of environments

What a name stands for is asked of an environment, and two laws answer it: in a fresh environment a
name stands for a constant or for nothing (`lookup_fresh`), and a binding changes what its own name
stands for and nothing else (`lookup_bind`). The second takes a name that is not a constant's. A
constant is looked up first, so a binding of its name would have no effect.

The mode of an environment, which says whether displays expose their entries, never changes on the
way (`mode_bind`). An expression on its own begins in `Environment.initial`.
-/
namespace DepsManifest

namespace Environment

/-- The environment in which an expression on its own is evaluated. -/
def initial (exposeVars : Bool) : Environment :=
  .fresh (if exposeVars then .selfReferential else .opaqueDisplays)

theorem lookup_fresh (mode : EnvironmentMode) (n : String) :
    (fresh mode).lookup n = constant? n := by
  simp only [lookup, fresh, NameMap.get?_empty]
  cases constant? n <;> rfl

theorem mem_constantNames_iff (n : String) : n ∈ constantNames ↔ (constant? n).isSome := by
  simp only [constantNames, constant?, List.mem_cons, List.not_mem_nil, or_false]
  by_cases hnone : n = "None"
  · simp [hnone]
  · by_cases htrue : n = "True"
    · simp [htrue]
    · by_cases hfalse : n = "False" <;> simp [hnone, htrue, hfalse]

/-- A binding changes what its name stands for, and nothing else. -/
theorem lookup_bind {env : Environment} {name : String} (h : constant? name = none)
    (value : Value) (n : String) :
    (env.bind name value).lookup n = if n = name then some value else env.lookup n := by
  simp only [bind, h, Option.isSome_none, Bool.false_eq_true, if_false, lookup,
    NameMap.get?_insert]
  by_cases heq : n = name
  · simp [heq, h]
  · simp [heq]

@[simp] theorem mode_bind (env : Environment) (name : String) (value : Value) :
    (env.bind name value).mode = env.mode := by
  simp only [bind]
  split <;> rfl

end Environment

theorem Expr.value_eq (fs : Functions) (exposeVars : Bool) (e : Expr) :
    e.value fs exposeVars = e.evaluate fs (.initial exposeVars) := rfl

end DepsManifest
