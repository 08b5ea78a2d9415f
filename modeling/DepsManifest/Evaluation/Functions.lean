import DepsManifest.NameMap
import DepsManifest.Text.Quoted
import DepsManifest.Value.Basic
/-! # Functions

The functions an expression can call, by name. A function takes a list of values; where it has no
result it gives a text that says why. How many values it takes and of which types is its own affair.

Functions are parameters of evaluation and there is no other way for an expression to do anything:
it can build values, read names, and call what it is given. Functions are not values, so they cannot
be passed on, and their names are apart from those that an environment binds.
-/
namespace DepsManifest

abbrev Function := List Value → Except String Value

/-- The functions that can be called. -/
structure Functions where
  entries : NameMap Function

namespace Functions

/-- No function can be called. -/
def empty : Functions := ⟨.empty⟩

def insert (fs : Functions) (name : String) (f : Function) : Functions :=
  ⟨fs.entries.insert name f⟩

def get? (fs : Functions) (name : String) : Option Function := fs.entries.get? name

/-- The names of the functions, in order. -/
def names (fs : Functions) : List String := fs.entries.names

/-- The functions as a set of their names. -/
def description (fs : Functions) : String := Text.quotedSet fs.names

end Functions

end DepsManifest
