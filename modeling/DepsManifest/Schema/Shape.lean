import DepsManifest.Value.Basic
/-! # Shapes

A shape says which values are allowed: scalars of a kind, lists of one shape, pairs, dicts with
arbitrary string keys or with named fields, and a choice of shapes.

A shape has a description for messages, written in a notation of its own: `?` after a field that may
be missing, `or` between alternatives. `acceptsKind` looks at a value from outside only; it says
whether the value is of the kind that the shape is about, and is what a choice goes by when none of
its alternatives fits.
-/
namespace DepsManifest

mutual

/-- Which values are allowed. -/
inductive Shape where
  | str
  | bool
  | null
  | listOf (item : Shape)
  | pair (first second : Shape)
  | mapOf (value : Shape)
  | record (fields : List Field)
  | oneOf (alternatives : List Shape)

/-- A named entry of a record. -/
inductive Field where
  | mk (name : String) (required : Bool) (shape : Shape)

end

instance : Inhabited Shape := ⟨.null⟩

namespace Field

def name : Field → String
  | .mk name _ _ => name

def isRequired : Field → Bool
  | .mk _ required _ => required

def shape : Field → Shape
  | .mk _ _ shape => shape

end Field

namespace Shape

mutual

/-- A shape as messages write it. -/
def description : Shape → String
  | .str => "str"
  | .bool => "bool"
  | .null => "None"
  | .listOf item => "[" ++ description item ++ "]"
  | .pair first second => "(" ++ description first ++ ", " ++ description second ++ ")"
  | .mapOf value => "\x7bstr: " ++ description value ++ "\x7d"
  | .record fields => "\x7b" ++ describeFields fields ++ "\x7d"
  | .oneOf alternatives => describeAlternatives alternatives

/-- The fields of a record with commas between them. -/
def describeFields : List Field → String
  | [] => ""
  | [field] => describeField field
  | field :: rest => describeField field ++ ", " ++ describeFields rest

/-- A field; a question mark tells that it may be missing. -/
def describeField : Field → String
  | .mk name required shape => name ++ (if required then "" else "?") ++ ": " ++ description shape

/-- The shapes of a choice. -/
def describeAlternatives : List Shape → String
  | [] => ""
  | [shape] => description shape
  | shape :: rest => description shape ++ " or " ++ describeAlternatives rest

end

mutual

/-- Whether a value is of the kind that a shape is about, whatever it holds. -/
def acceptsKind (v : Value) : Shape → Bool
  | .str => v.asString?.isSome
  | .bool => v.asBool?.isSome
  | .null => v.isNull
  | .listOf _ => (v matches .list _)
  | .pair _ _ => v.asSequence?.isSome
  | .mapOf _ => v.asDict?.isSome
  | .record _ => v.asDict?.isSome
  | .oneOf alternatives => anyAcceptsKind v alternatives

/-- Whether a value is of the kind of one of some shapes. -/
def anyAcceptsKind (v : Value) : List Shape → Bool
  | [] => false
  | shape :: rest => acceptsKind v shape || anyAcceptsKind v rest

end

end Shape

end DepsManifest
