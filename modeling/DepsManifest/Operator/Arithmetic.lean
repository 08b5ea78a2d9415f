import DepsManifest.Operator.Format
/-! # Operators on values

The three operators that a manifest may use: `+` joins two values of one kind or adds two numbers,
`%` fills in a format text or takes a remainder, `not` negates the truth of a value. Sums that leave
the range of 64 bits are an error; a remainder has the sign of the divisor.

What `+` joins are strings, lists or tuples, each only with its own kind. Truth values are no
numbers for it. An error names the operator and the types of both operands, or carries the failure
of the format text.
-/
namespace DepsManifest

/-- Why an operator has no result. -/
inductive OperatorError where
  | unsupportedOperands (operator left right : String)
  | overflow (left right : Int64)
  | moduloByZero
  | format (failure : Format.Failure)
  deriving DecidableEq

def OperatorError.message : OperatorError → String
  | .unsupportedOperands operator left right =>
    "unsupported operand type(s) for " ++ operator ++ ": '" ++ left ++ "' and '" ++ right ++ "'"
  | .overflow left right =>
    "integer overflow in " ++ String.ofList (Text.signedDecimal left.toInt)
      ++ " + " ++ String.ofList (Text.signedDecimal right.toInt)
  | .moduloByZero => "integer division or modulo by zero"
  | .format failure => failure.message

namespace Value

/-- Two 64-bit numbers added, if the sum has 64 bits. -/
def addInts (a b : Int64) : Except OperatorError Value :=
  let sum := a.toInt + b.toInt
  if Int64.minValue.toInt ≤ sum ∧ sum ≤ Int64.maxValue.toInt then .ok (.int (a + b))
  else .error (.overflow a b)

def add : Value → Value → Except OperatorError Value
  | .str a, .str b => .ok (.str (a ++ b))
  | .list a, .list b => .ok (.list (a ++ b))
  | .tuple a, .tuple b => .ok (.tuple (a ++ b))
  | .int a, .int b => addInts a b
  | a, b => .error (.unsupportedOperands "+" a.typeName b.typeName)

/-- The remainder of a division that rounds down: the remainder toward zero, moved by the divisor
if their signs differ. -/
def floorModulo (a b : Int64) : Int64 :=
  let r := a % b
  if r ≠ 0 ∧ (decide (r < 0) ≠ decide (b < 0)) then r + b else r

/-- The remainder of two values, or a format text filled in. -/
def modulo : Value → Value → Except OperatorError Value
  | .str text, v =>
    match Format.format text.toList v with
    | .ok out => .ok (.str (String.ofList out))
    | .error failure => .error (.format failure)
  | .int a, .int b => if b = 0 then .error .moduloByZero else .ok (.int (floorModulo a b))
  | a, b => .error (.unsupportedOperands "%" a.typeName b.typeName)

def not (v : Value) : Value := .bool (!v.isTruthy)

end Value

end DepsManifest
