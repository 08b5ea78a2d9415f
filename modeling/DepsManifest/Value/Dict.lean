import DepsManifest.Value.Basic
/-! # Dicts

A dict maps values to values. A new key goes to the end; a key that is already there keeps its place
and gets the new value. Keys are compared as values are, so that a list, or even a dict in another
order, can be found again.

The key that stays is the old one, which can differ from the new one though the two are equal. A
string key is found by its text alone. That keys do not occur twice is kept by all operations, but
it is no part of the type: a dict is its entries, so that it can be a value without anything to be
proved.
-/
namespace DepsManifest

/-- A mapping from values to values, in the order in which keys were first inserted. -/
structure Dict where
  entries : List (Value × Value)
  deriving Inhabited

namespace Dict

def empty : Dict := ⟨[]⟩

/-- Entries with a value put under a key, in the place of an equal key or at the end. -/
def insertEntry (key value : Value) : List (Value × Value) → List (Value × Value)
  | [] => [(key, value)]
  | (k, v) :: rest =>
    if k == key then (k, value) :: rest else (k, v) :: insertEntry key value rest

def insert (d : Dict) (key value : Value) : Dict := ⟨insertEntry key value d.entries⟩

/-- An insertion that gives back the value in whose place the new one is put, if there is one. -/
def exchange (d : Dict) (key value : Value) : Option Value × Dict :=
  match d.entries.findIdx? fun e => e.1 == key with
  | some i => (d.entries[i]?.map (·.2), ⟨d.entries.modify i fun e => (e.1, value)⟩)
  | none => (none, ⟨d.entries ++ [(key, value)]⟩)

def get? (d : Dict) (key : Value) : Option Value :=
  (d.entries.find? fun e => e.1 == key).map (·.2)

/-- The value under a string key. -/
def getString? (d : Dict) (key : String) : Option Value :=
  (d.entries.find? fun e => e.1.asString? == some key).map (·.2)

def contains (d : Dict) (key : Value) : Bool := (d.get? key).isSome

def keys (d : Dict) : List Value := d.entries.map (·.1)

def values (d : Dict) : List Value := d.entries.map (·.2)

def size (d : Dict) : Nat := d.entries.length

def isEmpty (d : Dict) : Bool := d.entries.isEmpty

def ofList (pairs : List (Value × Value)) : Dict :=
  pairs.foldl (fun d pair => d.insert pair.1 pair.2) empty

def toValue (d : Dict) : Value := .dict d.entries

end Dict

def Value.toDict? : Value → Option Dict
  | .dict entries => some ⟨entries⟩
  | _ => none

end DepsManifest
