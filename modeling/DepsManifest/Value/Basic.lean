/-! # Values

The closed set of data that a manifest can produce. A dict is a list of entries in the order in
which its keys were first written; two dicts are equal when they hold the same entries, whatever the
order. Whole numbers have 64 bits and sign; no manifest text denotes one, only a function can return
one.

Equality (`Value.eqv`) is a function on values and not the equality of the type, which knows the
order of entries. It looks a key up in the other dict as that would do it, at the first key that is
equal. The type allows dicts with a key that occurs twice; what a manifest produces has none.

Functions on values recur through lists of values and lists of entries, each with two helpers.
-/
namespace DepsManifest

/-- The data of a manifest. -/
inductive Value where
  | null
  | bool (b : Bool)
  | int (i : Int64)
  | str (s : String)
  | list (items : List Value)
  | tuple (items : List Value)
  | dict (entries : List (Value × Value))

namespace Value

instance : Inhabited Value := ⟨.null⟩

/-- The name of a value's type, as messages write it. -/
def typeName : Value → String
  | .null => "NoneType"
  | .bool _ => "bool"
  | .int _ => "int"
  | .str _ => "str"
  | .list _ => "list"
  | .tuple _ => "tuple"
  | .dict _ => "dict"

/-- Whether a value counts as true: all but nothing, false, zero and what is empty. -/
def isTruthy : Value → Bool
  | .null => false
  | .bool b => b
  | .int i => i != 0
  | .str s => s != ""
  | .list items => !items.isEmpty
  | .tuple items => !items.isEmpty
  | .dict entries => !entries.isEmpty

def asString? : Value → Option String
  | .str s => some s
  | _ => none

def asBool? : Value → Option Bool
  | .bool b => some b
  | _ => none

/-- The entries of a dict. -/
def asDict? : Value → Option (List (Value × Value))
  | .dict entries => some entries
  | _ => none

/-- The elements of a list or a tuple. -/
def asSequence? : Value → Option (List Value)
  | .list items => some items
  | .tuple items => some items
  | _ => none

def isNull : Value → Bool
  | .null => true
  | _ => false

mutual

/-- Equality of values. Lists differ from tuples; dicts are compared without regard to order. -/
def eqv : Value → Value → Bool
  | .null, .null => true
  | .bool a, .bool b => a == b
  | .int a, .int b => a == b
  | .str a, .str b => a == b
  | .list xs, .list ys => eqvAll xs ys
  | .tuple xs, .tuple ys => eqvAll xs ys
  | .dict xs, .dict ys => xs.length == ys.length && eqvEntries xs ys
  | _, _ => false

/-- Two lists of values are equal element by element. -/
def eqvAll : List Value → List Value → Bool
  | [], [] => true
  | x :: xs, y :: ys => eqv x y && eqvAll xs ys
  | _, _ => false

/-- Each entry of the first list has an entry with an equal key in the second, and the first such
entry has an equal value. -/
def eqvEntries : List (Value × Value) → List (Value × Value) → Bool
  | [], _ => true
  | (k, v) :: rest, ys =>
    (match ys.find? fun e => eqv k e.1 with
     | some e => eqv v e.2
     | none => false) && eqvEntries rest ys

end

instance : BEq Value := ⟨eqv⟩

end Value

end DepsManifest
