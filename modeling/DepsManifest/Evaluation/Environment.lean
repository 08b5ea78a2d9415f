import DepsManifest.NameMap
import DepsManifest.Value.Dict
/-! # Environments

The names an expression can read. Three names, `None`, `True` and `False`, always stand for the same
values and cannot be bound to others: a binding of one of them is dropped without a fault.

In a self-referential environment a dict display binds each string key it has evaluated, for the
entries after it; in an opaque one it binds nothing. The mode belongs to the environment and not to
the display, so a display nested in another follows the same rule; what it binds is gone at its end,
as environments are passed on and never changed.
-/
namespace DepsManifest

/-- Whether a dict display shows its entries to the entries after them. -/
inductive EnvironmentMode where
  | opaqueDisplays
  | selfReferential
  deriving DecidableEq, Inhabited

/-- The names an expression can read, besides the constants. -/
structure Environment where
  mode : EnvironmentMode
  bindings : NameMap Value

namespace Environment

/-- The value of a name that no environment can change. -/
def constant? (name : String) : Option Value :=
  if name = "None" then some .null
  else if name = "True" then some (.bool true)
  else if name = "False" then some (.bool false)
  else none

/-- The names of the constants, in order. -/
def constantNames : List String := ["False", "None", "True"]

def fresh (mode : EnvironmentMode) : Environment := ⟨mode, .empty⟩

def lookup (env : Environment) (name : String) : Option Value :=
  constant? name <|> env.bindings.get? name

/-- The names that have values: the constants first, then the others in order. -/
def names (env : Environment) : List String := constantNames ++ env.bindings.names

/-- A name bound to a value, in place of an earlier binding. A constant stays what it is. -/
def bind (env : Environment) (name : String) (value : Value) : Environment :=
  if (constant? name).isSome then env else { env with bindings := env.bindings.insert name value }

/-- The environment for the entries after one whose key and value are given. -/
def afterEntry (env : Environment) (key value : Value) : Environment :=
  match env.mode, key with
  | .selfReferential, .str name => env.bind name value
  | _, _ => env

/-- Whether two environments have the same mode, names and values. -/
def same (env other : Environment) : Bool :=
  env.mode == other.mode && env.bindings.agree (· == ·) other.bindings

end Environment

end DepsManifest
