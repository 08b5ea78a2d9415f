import DepsManifest.Expr.Basic
/-! # Expressions rebuilt

An expression rebuilt node by node, with its lines and its names replaced (`Expr.rebuild`). Both are
functions: a line for each line, and for each name, with its line, an expression. A name that a call
calls is no operand, so it keeps its spelling.

Three notions are instances of it:

  * `Expr.substitute` puts expressions in the places of names and leaves the lines;
  * `Expr.onLine` puts all nodes on one line and leaves the names;
  * `Expr.moved`, in its own module, replaces lines only, by any function.

An expression holds others in lists, in options and in items, arguments, clauses and comparisons, so
the definition is mutual, with a function for each of these. For lists of expressions it is a map
(`rebuildAll_eq_map`); the others are taken apart where an instance is used.
-/
namespace DepsManifest

namespace Expr

mutual

/-- An expression with its lines and its names replaced. -/
def rebuild (lines : Nat → Nat) (names : Nat → String → Expr) : Expr → Expr
  | .str line text => .str (lines line) text
  | .bytes line text => .bytes (lines line) text
  | .formatted line text => .formatted (lines line) text
  | .number line text => .number (lines line) text
  | .ellipsis line => .ellipsis (lines line)
  | .name line n => names line n
  | .tuple line items => .tuple (lines line) (rebuildAll lines names items)
  | .list line items => .list (lines line) (rebuildAll lines names items)
  | .set line items => .set (lines line) (rebuildAll lines names items)
  | .dict line items => .dict (lines line) (rebuildItems lines names items)
  | .starred line value => .starred (lines line) (rebuild lines names value)
  | .call line (.name nameLine n) arguments keywords sequence mapping =>
    .call (lines line) (.name (lines nameLine) n) (rebuildAll lines names arguments)
      (rebuildKeywords lines names keywords) (rebuildOption lines names sequence)
      (rebuildOption lines names mapping)
  | .call line callee arguments keywords sequence mapping =>
    .call (lines line) (rebuild lines names callee) (rebuildAll lines names arguments)
      (rebuildKeywords lines names keywords) (rebuildOption lines names sequence)
      (rebuildOption lines names mapping)
  | .field line value n => .field (lines line) (rebuild lines names value) n
  | .subscript line value index =>
    .subscript (lines line) (rebuild lines names value) (rebuild lines names index)
  | .slice line lower upper step =>
    .slice (lines line) (rebuildOption lines names lower) (rebuildOption lines names upper)
      (rebuildOption lines names step)
  | .lambda line parameters body => .lambda (lines line) parameters (rebuild lines names body)
  | .comprehension line kind element value clauses =>
    .comprehension (lines line) kind (rebuild lines names element)
      (rebuildOption lines names value) (rebuildClauses lines names clauses)
  | .conditional line test body otherwise =>
    .conditional (lines line) (rebuild lines names test) (rebuild lines names body)
      (rebuild lines names otherwise)
  | .binary line op left right =>
    .binary (lines line) op (rebuild lines names left) (rebuild lines names right)
  | .boolean line op operands => .boolean (lines line) op (rebuildAll lines names operands)
  | .unary line op operand => .unary (lines line) op (rebuild lines names operand)
  | .compare line left comparisons =>
    .compare (lines line) (rebuild lines names left) (rebuildComparisons lines names comparisons)
  | .named line target value =>
    .named (lines line) (rebuild lines names target) (rebuild lines names value)

/-- Some expressions, each rebuilt. -/
def rebuildAll (lines : Nat → Nat) (names : Nat → String → Expr) : List Expr → List Expr
  | [] => []
  | e :: rest => rebuild lines names e :: rebuildAll lines names rest

def rebuildOption (lines : Nat → Nat) (names : Nat → String → Expr) : Option Expr → Option Expr
  | none => none
  | some e => some (rebuild lines names e)

def rebuildItems (lines : Nat → Nat) (names : Nat → String → Expr) :
    List DictItem → List DictItem
  | [] => []
  | .entry key value :: rest =>
    .entry (rebuild lines names key) (rebuild lines names value) :: rebuildItems lines names rest
  | .unpack value :: rest => .unpack (rebuild lines names value) :: rebuildItems lines names rest

def rebuildKeywords (lines : Nat → Nat) (names : Nat → String → Expr) :
    List Keyword → List Keyword
  | [] => []
  | .mk n value :: rest => .mk n (rebuild lines names value) :: rebuildKeywords lines names rest

def rebuildClauses (lines : Nat → Nat) (names : Nat → String → Expr) : List Clause → List Clause
  | [] => []
  | .mk target iterable conditions :: rest =>
    .mk (rebuild lines names target) (rebuild lines names iterable)
      (rebuildAll lines names conditions) :: rebuildClauses lines names rest

def rebuildComparisons (lines : Nat → Nat) (names : Nat → String → Expr) :
    List (Comparison × Expr) → List (Comparison × Expr)
  | [] => []
  | (op, e) :: rest => (op, rebuild lines names e) :: rebuildComparisons lines names rest

end

/-- An expression with other expressions in the places of some of its names. -/
def substitute (σ : String → Option Expr) : Expr → Expr :=
  rebuild id fun line n => (σ n).getD (.name line n)

/-- An expression with all of its nodes on one line. -/
def onLine (line : Nat) : Expr → Expr :=
  rebuild (fun _ => line) fun _ n => .name line n

theorem rebuildAll_eq_map (lines : Nat → Nat) (names : Nat → String → Expr) (items : List Expr) :
    rebuildAll lines names items = items.map (rebuild lines names) := by
  induction items with
  | nil => rfl
  | cons e rest ih => simp only [rebuildAll, ih, List.map_cons]

end Expr

end DepsManifest
