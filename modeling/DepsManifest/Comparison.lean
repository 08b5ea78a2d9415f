import DepsManifest.Evaluation.Manifest
import DepsManifest.Schema.Manifest
/-! # Comparing with what is expected

An expected value is compared with an actual one: dicts must have the same keys, sequences the same
length, all else must be equal. An expected list also stands for an actual tuple, because expected
values are written in a format without tuples; an expected tuple stands for tuples only.

The first difference in the order of the expected value is reported, with the path that leads to it.
Keys and lengths are compared before anything inside, so a difference at an element is reported only
of sequences equally long, and one under a key only of dicts with the same keys. Keys are compared
in the order of their printed forms, as the order of a dict's entries makes no difference here. A
check (`Module.checkText`) executes the manifest, compares its scope, and then asks the scope to
have the shape of a manifest.
-/
namespace DepsManifest

structure Difference where
  path : String
  expected : Value
  actual : Value
  deriving Inhabited

namespace Difference

def message (manifest : String) (d : Difference) : String :=
  "depseval check for " ++ manifest ++ ": " ++ d.path ++ " expected " ++ d.expected.repr
    ++ ", got " ++ d.actual.repr

def keyPath (path : String) (key : Value) : String :=
  match key with
  | .str s => path ++ "[\"" ++ s ++ "\"]"
  | key => path ++ "[" ++ key.repr ++ "]"

/-- Keys in the order of their printed forms. -/
def sortedKeys (entries : List (Value × Value)) : List Value :=
  (entries.map (·.1)).mergeSort fun a b => decide (a.repr ≤ b.repr)

def count (items : List Value) : Value := .int (Int64.ofNat items.length)

/-- The difference between the lengths of two sequences, if they have one. -/
def ofLengths? (path : String) (expected actual : List Value) : Option Difference :=
  if expected.length = actual.length then none
  else some ⟨"len(" ++ path ++ ")", count expected, count actual⟩

/-- The difference between the keys of two dicts, if they have one. -/
def ofKeys? (path : String) (expected actual : List (Value × Value)) : Option Difference :=
  let expectedKeys := sortedKeys expected
  let actualKeys := sortedKeys actual
  if Value.eqvAll expectedKeys actualKeys then none
  else some ⟨path, .list expectedKeys, .list actualKeys⟩

end Difference

namespace Value

mutual

/-- The first difference of an actual value from an expected one. -/
def compare (path : String) : Value → Value → Except Difference Unit
  | .dict expected, .dict actual =>
    match Difference.ofKeys? path expected actual with
    | some difference => .error difference
    | none => compareEntries path expected ⟨actual⟩
  | .list expected, .list actual =>
    match Difference.ofLengths? path expected actual with
    | some difference => .error difference
    | none => compareFrom path 0 expected actual
  | .list expected, .tuple actual =>
    match Difference.ofLengths? path expected actual with
    | some difference => .error difference
    | none => compareFrom path 0 expected actual
  | .tuple expected, .tuple actual =>
    match Difference.ofLengths? path expected actual with
    | some difference => .error difference
    | none => compareFrom path 0 expected actual
  | expected, actual =>
    if expected == actual then .ok () else .error ⟨path, expected, actual⟩

/-- The first difference between elements from an index on. -/
def compareFrom (path : String) (index : Nat) : List Value → List Value → Except Difference Unit
  | e :: expected, a :: actual => do
    compare (path ++ "[" ++ String.ofList (Text.decimal index) ++ "]") e a
    compareFrom path (index + 1) expected actual
  | _, _ => .ok ()

/-- The first difference between the values under the keys of an expected dict. -/
def compareEntries (path : String) : List (Value × Value) → Dict → Except Difference Unit
  | [], _ => .ok ()
  | (k, e) :: rest, actual =>
    match actual.get? k with
    | none => compareEntries path rest actual
    | some a => do
      compare (Difference.keyPath path k) e a
      compareEntries path rest actual

end

end Value

/-- Why a scope is not what it is expected to be. -/
inductive CheckFailure where
  | difference (difference : Difference)
  | schema (mismatches : List Mismatch)
  deriving Inhabited

/-- A scope that has to equal an expected scope and to have the shape of a manifest. -/
def Scope.checkAgainst (expected actual : Scope) : Except CheckFailure Scope :=
  match expected.toValue.compare "" actual.toValue with
  | .error difference => .error (.difference difference)
  | .ok _ =>
    if actual.mismatches.isEmpty then .ok actual else .error (.schema actual.mismatches)

/-- Why a manifest's text is not what it is expected to be. -/
inductive CheckFault where
  | execution (fault : Located ExecutionFault)
  | failure (failure : CheckFailure)

/-- The scope of a text that has to equal an expected scope and to have the shape of a manifest. -/
def Module.checkText (fs : Functions) (expected : Scope) (text : String) :
    Except CheckFault Scope :=
  match Module.executeText fs text with
  | .error fault => .error (.execution fault)
  | .ok actual =>
    match expected.checkAgainst actual with
    | .error failure => .error (.failure failure)
    | .ok scope => .ok scope

end DepsManifest
