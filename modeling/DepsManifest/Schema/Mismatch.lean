import DepsManifest.Schema.Shape
import DepsManifest.Text.Quoted
import DepsManifest.Value.Dict
import DepsManifest.Value.Literal
/-! # Mismatches

What of a value does not fit a shape, each part with the path that leads to it. All mismatches are
found, in the order in which the value is walked through. A value that fits none of several
alternatives is one mismatch, unless it is of the kind of exactly one of them: then it is taken to
be meant as that one, and the mismatches inside it are reported.

In a record the entries of the dict come first, in its order, and after them the fields that are
missing, in the order of the shape. The elements of a list are walked only if the value is a list; a
tuple is a mismatch as a whole there, but a pair may be either.

The recursion is over the shape. Elements and entries of the value are taken as they come, since
their shapes are parts of the shape.
-/
namespace DepsManifest

/-- How a part of a value differs from its shape. -/
inductive MismatchKind where
  | typeMismatch
  | unknownKey
  | missingKey
  | lengthMismatch
  deriving DecidableEq, Inhabited

def MismatchKind.code : MismatchKind → String
  | typeMismatch => "type_mismatch"
  | unknownKey => "unknown_key"
  | missingKey => "missing_key"
  | lengthMismatch => "length_mismatch"

structure Mismatch where
  kind : MismatchKind
  path : String
  expected : String
  actual : String
  deriving DecidableEq, Inhabited

namespace Mismatch

/-- The top-level name that a mismatch is under. -/
def rootKey (m : Mismatch) : String := String.ofList (m.path.toList.takeWhile (· ≠ '['))

/-- A mismatch as messages write it. -/
def message (m : Mismatch) : String :=
  let path := if m.path = "" then "<root>" else m.path
  match m.kind with
  | .unknownKey => path ++ ": unknown key " ++ m.actual
  | .missingKey => path ++ ": missing required key of shape " ++ m.expected
  | .typeMismatch => path ++ ": expected " ++ m.expected ++ ", got " ++ m.actual
  | .lengthMismatch => path ++ ": expected " ++ m.expected ++ ", got " ++ m.actual

/-! ## Paths -/

/-- The path of the value under a key. At the top a string key stands alone. -/
def keyPath (path : String) (key : Value) : String :=
  match key with
  | .str s => if path = "" then s else path ++ "[" ++ Text.quoted s ++ "]"
  | key => path ++ "[" ++ key.repr ++ "]"

/-- The path of an element. -/
def indexPath (path : String) (index : Nat) : String :=
  path ++ "[" ++ String.ofList (Text.decimal index) ++ "]"

/-- A value as a mismatch names it: a scalar is printed, of a container its type is given. -/
def describe (v : Value) : String :=
  match v with
  | .list _ => v.typeName
  | .tuple _ => v.typeName
  | .dict _ => v.typeName
  | scalar => scalar.repr

end Mismatch

namespace Shape

def typeMismatch (shape : Shape) (path : String) (v : Value) : Mismatch :=
  ⟨.typeMismatch, path, shape.description, Mismatch.describe v⟩

/-- The mismatch of a value that is of the wrong kind. -/
def mismatchUnless (fits : Bool) (shape : Shape) (path : String) (v : Value) : List Mismatch :=
  if fits then [] else [shape.typeMismatch path v]

/-- The mismatch of a dict without a field that it must have. -/
def missing? (path : String) (d : Dict) (field : Field) : Option Mismatch :=
  if field.isRequired && (d.getString? field.name).isNone then
    some ⟨.missingKey, Mismatch.keyPath path (.str field.name), field.shape.description, "nothing"⟩
  else none

/-- The mismatches of a value with a choice, given for each alternative whether the value is of its
kind, and the mismatches with it. -/
def chosen (whole : Mismatch) (attempts : List (Bool × List Mismatch)) : List Mismatch :=
  if attempts.any (·.2.isEmpty) then []
  else
    match attempts.filter (·.1) with
    | [(_, found)] => found
    | _ => [whole]

mutual

/-- The mismatches of a value with a shape. -/
def mismatches (path : String) (v : Value) : Shape → List Mismatch
  | .str => mismatchUnless v.asString?.isSome .str path v
  | .bool => mismatchUnless v.asBool?.isSome .bool path v
  | .null => mismatchUnless v.isNull .null path v
  | .listOf item =>
    match v with
    | .list items =>
      items.zipIdx.flatMap fun (x, i) => mismatches (Mismatch.indexPath path i) x item
    | v => [typeMismatch (.listOf item) path v]
  | .pair first second =>
    match v.asSequence? with
    | some [a, b] =>
      mismatches (Mismatch.indexPath path 0) a first
        ++ mismatches (Mismatch.indexPath path 1) b second
    | some items =>
      [⟨.lengthMismatch, path, (Shape.pair first second).description ++ " (2 elements)",
        String.ofList (Text.decimal items.length) ++ " elements"⟩]
    | none => [typeMismatch (.pair first second) path v]
  | .mapOf value =>
    match v with
    | .dict entries =>
      entries.flatMap fun (k, x) =>
        match k with
        | .str _ => mismatches (Mismatch.keyPath path k) x value
        | k => [⟨.typeMismatch, Mismatch.keyPath path k, "str key", Mismatch.describe k⟩]
    | v => [typeMismatch (.mapOf value) path v]
  | .record fields =>
    match v with
    | .dict entries =>
      (entries.flatMap fun (k, x) =>
        match fieldMismatches? (Mismatch.keyPath path k) k x fields with
        | some found => found
        | none => [⟨.unknownKey, Mismatch.keyPath path k, "a known key", k.repr⟩])
        ++ fields.filterMap (missing? path ⟨entries⟩)
    | v => [typeMismatch (.record fields) path v]
  | .oneOf alternatives =>
    chosen (typeMismatch (.oneOf alternatives) path v) (attempts path v alternatives)

/-- The mismatches of a value with the field that a key names, if there is one. -/
def fieldMismatches? (path : String) (key v : Value) : List Field → Option (List Mismatch)
  | [] => none
  | .mk name _ shape :: rest =>
    if key.asString? == some name then some (mismatches path v shape)
    else fieldMismatches? path key v rest

/-- For each alternative, whether a value is of its kind, and the mismatches with it. -/
def attempts (path : String) (v : Value) : List Shape → List (Bool × List Mismatch)
  | [] => []
  | shape :: rest => (acceptsKind v shape, mismatches path v shape) :: attempts path v rest

end

end Shape

end DepsManifest
