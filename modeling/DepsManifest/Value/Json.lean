import DepsManifest.Json.Printer
import DepsManifest.Json.Reader
import DepsManifest.Scope
import DepsManifest.Value.Literal
/-! # Values and JSON

A value has two JSON forms. Its document is what is written to a file: dict entries in their order,
one member each. Its view is what a reader gets back: the members of every object in the order of
their names, a later one in place of an earlier one of the same name. In both a tuple is an array,
and a key that is no string is written as it is printed.

In the other direction an array is a list, and a number must be a whole number of 64 bits. So a
value comes back from its view if it has neither tuples nor keys that are no strings, its dicts with
their keys in order. Of several numbers that are none the first is reported, in the order of the
elements and members.
-/
namespace DepsManifest

namespace Value

/-- The member name for a dict key. -/
def memberName : Value → String
  | .str s => s
  | v => v.repr

mutual

/-- A value as it is written, entry by entry. -/
def document : Value → Json
  | .null => .null
  | .bool b => .bool b
  | .int i => .num (.integer i.toInt)
  | .str s => .str s
  | .list items => .arr (documentItems items)
  | .tuple items => .arr (documentItems items)
  | .dict entries => .obj (documentEntries entries)

/-- The elements of a sequence as they are written. -/
def documentItems : List Value → List Json
  | [] => []
  | item :: rest => document item :: documentItems rest

/-- The entries of a dict as they are written. -/
def documentEntries : List (Value × Value) → List (String × Json)
  | [] => []
  | (k, v) :: rest => (memberName k, document v) :: documentEntries rest

end

mutual

/-- A value as a reader of its document sees it. -/
def toJson : Value → Json
  | .null => .null
  | .bool b => .bool b
  | .int i => .num (.integer i.toInt)
  | .str s => .str s
  | .list items => .arr (toJsonItems items)
  | .tuple items => .arr (toJsonItems items)
  | .dict entries => Json.object (toJsonEntries entries)

/-- The elements of a sequence as a reader sees them. -/
def toJsonItems : List Value → List Json
  | [] => []
  | item :: rest => toJson item :: toJsonItems rest

/-- The entries of a dict with their values as a reader sees them, in the dict's order. -/
def toJsonEntries : List (Value × Value) → List (String × Json)
  | [] => []
  | (k, v) :: rest => (memberName k, toJson v) :: toJsonEntries rest

end

/-- A number that no value represents. -/
structure NumberError where
  number : Json.Number
  deriving DecidableEq

def NumberError.message (e : NumberError) : String :=
  "unsupported number " ++ String.ofList e.number.text ++ ": only integers are representable"

/-- Whether a whole number has 64 bits and sign. -/
def fitsInt64 (i : Int) : Bool := -9223372036854775808 ≤ i && i ≤ 9223372036854775807

mutual

/-- The value of a JSON value. The first number that is not a whole number of 64 bits is an
error. -/
def ofJson : Json → Except NumberError Value
  | .null => .ok .null
  | .bool b => .ok (.bool b)
  | .num (.integer i) => if fitsInt64 i then .ok (.int (Int64.ofInt i)) else .error ⟨.integer i⟩
  | .num n => .error ⟨n⟩
  | .str s => .ok (.str s)
  | .arr items => do return .list (← ofJsonItems items)
  | .obj members => do return .dict (← ofJsonMembers members .empty).entries

/-- The values of an array's elements. -/
def ofJsonItems : List Json → Except NumberError (List Value)
  | [] => .ok []
  | item :: rest => do
    let v ← ofJson item
    return v :: (← ofJsonItems rest)

/-- An object's members inserted into a dict. -/
def ofJsonMembers : List (String × Json) → Dict → Except NumberError Dict
  | [], d => .ok d
  | (name, json) :: rest, d => do
    let v ← ofJson json
    ofJsonMembers rest (d.insert (.str name) v)

end

def serialized (v : Value) : String := v.document.compact

end Value

namespace Scope

/-- A scope as it is written, name by name. -/
def document (s : Scope) : Json :=
  .obj (s.bindings.entries.map fun e => (e.1, e.2.value.document))

def serialized (s : Scope) : String := s.document.compact

end Scope

end DepsManifest
