import DepsManifest.Expr.Primary
/-! # Reading operators and their operands

The levels from the tightest to the loosest: `**`, signs, the binary operators from `*` to `|`,
comparisons, `not`, `and`, `or`. Binary operators group from the left, comparisons make one chain,
and operands of `and` or `or` make one node. A power takes signs before its exponent, so `2 ** -1`
is a power, and binds tighter than signs before its base.

The binary levels are a table (`levels`), read by one function that goes down the table
(`binaryChain`); another operator of the same form is another line there. A node made by an operator
stands on the line of its left operand.
-/
namespace DepsManifest

namespace Parse

namespace Grammar

variable (g : Grammar)

def power : Parse Expr := fun ts => do
  let (base, ts) ← g.primary ts
  match skipOp? .doubleStar ts with
  | some ts =>
    let (exponent, ts) ← g.signed ts
    return (.binary base.line .power base exponent, ts)
  | none => return (base, ts)

/-- The sign that an operator is. -/
def sign? : TokenKind → Option UnaryOp
  | .op .minus => some .minus
  | .op .plus => some .plus
  | .op .tilde => some .invert
  | _ => none

/-- A power with signs before it. -/
def signedOperand : Parse Expr := fun ts =>
  match sign? (current ts).kind with
  | some op => do
    let (operand, rest) ← g.signed ts.tail
    return (.unary (current ts).line op operand, rest)
  | none => g.power ts

/-- The binary operators, level by level, loosest first. -/
def levels : List (List (Op × BinaryOp)) :=
  [[(.bar, .bitOr)], [(.caret, .bitXor)], [(.ampersand, .bitAnd)],
    [(.shiftLeft, .shiftLeft), (.shiftRight, .shiftRight)],
    [(.plus, .add), (.minus, .subtract)],
    [(.star, .multiply), (.slash, .divide), (.doubleSlash, .floorDivide), (.percent, .modulo),
      (.atSign, .matrixMultiply)]]

/-- The operator that a token is, among those of a table. -/
def operator? (table : List (Op × BinaryOp)) : TokenKind → Option BinaryOp
  | .op op => table.lookup op
  | _ => none

/-- An operator of a level with its right operand, if one comes next. -/
def operatorAndOperand (table : List (Op × BinaryOp)) (operand : Parse Expr) :
    ParseIf (BinaryOp × Expr) := fun ts =>
  match operator? table (current ts).kind with
  | none => .ok none
  | some op => do
    let (right, ts) ← operand ts.tail
    return some ((op, right), ts)

/-- Operands with the binary operators of some levels between them, grouped from the left. -/
def binaryChain (operand : Parse Expr) : List (List (Op × BinaryOp)) → Parse Expr
  | [] => operand
  | table :: tighter => fun ts => do
    let (first, ts) ← binaryChain operand tighter ts
    let (rest, ts) ← many (operatorAndOperand table (binaryChain operand tighter)) ts
    return (rest.foldl (fun left (op, right) => .binary left.line op left right) first, ts)

def comparand : Parse Expr := binaryChain g.signedOperand levels

/-- The comparison that a keyword stands for, and the tokens after it. -/
def keywordComparison? (keyword : String) (ts : List Token) : Option (Comparison × List Token) :=
  if keyword = "in" then some (.member, ts)
  else if keyword = "not" then (skipKeyword? "in" ts).map fun ts => (.notMember, ts)
  else if keyword = "is" then
    match skipKeyword? "not" ts with
    | some ts => some (.notSame, ts)
    | none => some (.same, ts)
  else none

/-- The comparison that comes next, if one does, and the tokens after it. -/
def comparison? (ts : List Token) : Option (Comparison × List Token) :=
  match (current ts).kind with
  | .op .less => some (.less, ts.tail)
  | .op .greater => some (.greater, ts.tail)
  | .op .lessEqual => some (.lessEqual, ts.tail)
  | .op .greaterEqual => some (.greaterEqual, ts.tail)
  | .op .equal => some (.equal, ts.tail)
  | .op .notEqual => some (.notEqual, ts.tail)
  | .name keyword => keywordComparison? keyword ts.tail
  | _ => none

/-- A comparison with its right operand, if one comes next. -/
def comparisonAndOperand : ParseIf (Comparison × Expr) := fun ts =>
  match comparison? ts with
  | none => .ok none
  | some (op, ts) => do
    let (right, ts) ← g.comparand ts
    return some ((op, right), ts)

/-- A chain of comparisons, or its first operand alone. -/
def comparison : Parse Expr := fun ts => do
  let (left, ts) ← g.comparand ts
  let (comparisons, ts) ← many g.comparisonAndOperand ts
  if comparisons.isEmpty then return (left, ts)
  else return (.compare left.line left comparisons, ts)

/-- A comparison with negations before it. -/
def negatedComparison : Parse Expr := fun ts =>
  match skipKeyword? "not" ts with
  | some rest => do
    let (operand, rest) ← g.negation rest
    return (.unary (current ts).line .not operand, rest)
  | none => g.comparison ts

/-- Operands joined by a keyword as one node, or the one operand alone. -/
def joined (op : BoolOp) (operand : Parse Expr) : Parse Expr := fun ts => do
  let (first, ts) ← operand ts
  let (rest, ts) ← many (afterKeyword op.keyword operand) ts
  if rest.isEmpty then return (first, ts)
  else return (.boolean first.line op (first :: rest), ts)

/-- Conditions joined by `and` and then by `or`. -/
def conditions : Parse Expr := joined .or (joined .and g.negatedComparison)

end Grammar

end Parse

end DepsManifest
