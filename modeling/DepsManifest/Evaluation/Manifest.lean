import DepsManifest.Evaluation.Module
/-! # Executing manifests

A manifest can call two functions. `Str` returns the string it is given. `Var` looks a variable up,
first among those set from outside and then in the dict that the manifest itself assigns to `vars`.

So that `Var` can be called before that assignment, the dict is evaluated first, on its own and with
`Str` alone; a call of `Var` in it is a fault. The first assignment to `vars` counts. If its value
is no dict the manifest has no variables of its own, but that is not a fault here: the shape of a
manifest is checked elsewhere. The assignment is evaluated once more in its turn, then with both
functions.
-/
namespace DepsManifest

namespace Functions

/-- A function that takes one string. -/
def ofString (name : String) (f : String → Except String Value) : Function
  | [.str s] => f s
  | [other] => .error (name ++ "() argument must be str, not " ++ other.typeName)
  | arguments =>
    .error (name ++ "() takes exactly one argument ("
      ++ String.ofList (Text.decimal arguments.length) ++ " given)")

/-- The functions that `vars` can be evaluated with. -/
def strOnly : Functions := empty.insert "Str" (ofString "Str" fun s => .ok (.str s))

/-- The value of a variable: what was set from outside, else the manifest's own. -/
def varValue? (manifestVars : Dict) (customVars : NameMap Value) (name : String) : Option Value :=
  customVars.get? name <|> manifestVars.getString? name

/-- The functions that a manifest is executed with. -/
def standard (manifestVars : Dict) (customVars : NameMap Value) : Functions :=
  strOnly.insert "Var" (ofString "Var" fun name =>
    match varValue? manifestVars customVars name with
    | some value => .ok value
    | none => .error ("Var is not defined: " ++ name))

end Functions

namespace Statement

/-- The expression that a statement assigns to `vars` alone. -/
def varsExpr? (s : Statement) : Option Expr :=
  match s.assignment with
  | .ok (name, e) => if name = varsName then some e else none
  | .error _ => none

end Statement

namespace Module

/-- The dict that a module assigns to `vars` first; an empty one if it assigns none. -/
def manifestVars (m : Module) : Except (Located EvaluationFault) Dict :=
  match m.body.findSome? Statement.varsExpr? with
  | none => .ok .empty
  | some e => do
    let v ← e.value .strOnly true
    return v.toDict?.getD .empty

/-- The scope of a module as a manifest. -/
def executeManifest (customVars : NameMap Value) (m : Module) :
    Except (Located ExecutionFault) Scope :=
  match m.manifestVars with
  | .error fault => .error ⟨fault.line, .evaluation fault.cause⟩
  | .ok vars => m.execute (.standard vars customVars)

end Module

/-- The scope of the manifest that a text denotes. -/
def executeManifest (customVars : NameMap Value) (text : String) :
    Except (Located ExecutionFault) Scope :=
  match Module.ofText text with
  | .error fault => .error ⟨fault.line, .unreadable fault.cause⟩
  | .ok m => m.executeManifest customVars

end DepsManifest
