import DepsManifest.NameMap
import DepsManifest.Value.Dict
/-! # Scopes

A scope is what a manifest defines: each name at most once, with the line of the assignment that
bound it where there is one. Two scopes are the same definitions if they bind the same names to
equal values; lines are not compared.

A name that is bound stays bound to the same value: a second binding is refused (`bind`) or ignored
(`bindNew`). Scopes that are written by hand or read from a text have no lines. A scope is also a
dict value with string keys, and back from one if every key is a string that occurs once.
-/
namespace DepsManifest

/-- The value of a name, and the line that bound it. -/
structure Binding where
  value : Value
  line : Option Nat
  deriving Inhabited

/-- The top-level names of a manifest. -/
structure Scope where
  bindings : NameMap Binding
  deriving Inhabited

namespace Scope

/-- The scope without names. -/
def empty : Scope := ⟨.empty⟩

def get? (s : Scope) (name : String) : Option Value := (s.bindings.get? name).map (·.value)

def contains (s : Scope) (name : String) : Bool := s.bindings.contains name

/-- The line of the assignment that bound a name. -/
def lineOf? (s : Scope) (name : String) : Option Nat := (s.bindings.get? name).bind (·.line)

def names (s : Scope) : List String := s.bindings.names

def size (s : Scope) : Nat := s.bindings.size

def isEmpty (s : Scope) : Bool := s.bindings.entries.isEmpty

/-- A name bound to a value. A name that is already bound is refused, and its value returned. -/
def bind (s : Scope) (name : String) (value : Value) (line : Option Nat) : Except Value Scope :=
  match s.get? name with
  | some bound => .error bound
  | none => .ok ⟨s.bindings.insert name ⟨value, line⟩⟩

/-- A name bound to a value unless it is bound already. -/
def bindNew (s : Scope) (name : String) (value : Value) (line : Option Nat) : Scope :=
  (s.bind name value line).toOption.getD s

/-- The scope of a list of pairs; of two pairs with one name the earlier counts. -/
def ofPairs (pairs : List (String × Value)) : Scope :=
  pairs.foldl (fun s pair => s.bindNew pair.1 pair.2 none) empty

/-- A scope as a dict value, keyed by name. -/
def toValue (s : Scope) : Value :=
  .dict (s.bindings.entries.map fun e => (.str e.1, e.2.value))

/-- The names of a dict's entries bound one after the other; every key must be a string that
occurs once. -/
def ofEntries? (s : Scope) : List (Value × Value) → Option Scope
  | [] => some s
  | (.str name, value) :: rest =>
    match s.bind name value none with
    | .ok s => s.ofEntries? rest
    | .error _ => none
  | _ :: _ => none

/-- The scope that a dict value describes. -/
def ofValue? : Value → Option Scope
  | .dict entries => empty.ofEntries? entries
  | _ => none

/-- Equality of scopes: the same names with equal values. -/
def eqv (s other : Scope) : Bool := s.bindings.agree (fun a b => a.value == b.value) other.bindings

instance : BEq Scope := ⟨eqv⟩

end Scope

end DepsManifest
