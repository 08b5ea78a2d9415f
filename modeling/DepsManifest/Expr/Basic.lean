/-! # Expressions

The tree of an expression. Every node carries a line, the one it begins on, parentheses around its
first operand aside. The tree has more kinds of node than a manifest may use: what cannot be
evaluated is still read, so that it can be named (`Expr.kindName`).

Some of what is read is dropped: the defaults and the stars of the parameters of a lambda
expression, all but the last of several starred arguments of a call, and parentheses, which leave no
trace. A number keeps the text it was written as, since no number is ever evaluated.

Four types are defined together, because entries of dicts, arguments passed by name and clauses of
comprehensions hold expressions again. Functions on expressions recur through all four.
-/
namespace DepsManifest

/-- An operator between two operands. -/
inductive BinaryOp where
  | add | subtract | multiply | matrixMultiply | divide | floorDivide | modulo | power
  | shiftLeft | shiftRight | bitOr | bitXor | bitAnd
  deriving DecidableEq, Inhabited

def BinaryOp.symbol : BinaryOp → String
  | add => "+" | subtract => "-" | multiply => "*" | matrixMultiply => "@" | divide => "/"
  | floorDivide => "//" | modulo => "%" | power => "**" | shiftLeft => "<<" | shiftRight => ">>"
  | bitOr => "|" | bitXor => "^" | bitAnd => "&"

/-- An operator that joins conditions. -/
inductive BoolOp where
  | and | or
  deriving DecidableEq, Inhabited

/-- The keyword of an operator that joins conditions. -/
def BoolOp.keyword : BoolOp → String
  | and => "and"
  | or => "or"

/-- An operator before one operand. -/
inductive UnaryOp where
  | not | minus | plus | invert
  deriving DecidableEq, Inhabited

def UnaryOp.symbol : UnaryOp → String
  | not => "not"
  | minus => "-"
  | plus => "+"
  | invert => "~"

/-- A comparison of two operands. -/
inductive Comparison where
  | equal | notEqual | less | lessEqual | greater | greaterEqual | same | notSame | member
  | notMember
  deriving DecidableEq, Inhabited

/-- What a comprehension makes. -/
inductive ComprehensionKind where
  | list | set | dict | generator
  deriving DecidableEq, Inhabited

def ComprehensionKind.name : ComprehensionKind → String
  | list => "ListComp"
  | set => "SetComp"
  | dict => "DictComp"
  | generator => "GeneratorExp"

mutual

/-- An expression. Adjacent string literals are one node; a chain of conditions joined by one
operator is one node, and so is a chain of comparisons. -/
inductive Expr where
  | str (line : Nat) (text : String)
  | bytes (line : Nat) (text : String)
  | formatted (line : Nat) (text : String)
  | number (line : Nat) (text : String)
  | ellipsis (line : Nat)
  | name (line : Nat) (name : String)
  | tuple (line : Nat) (items : List Expr)
  | list (line : Nat) (items : List Expr)
  | set (line : Nat) (items : List Expr)
  | dict (line : Nat) (items : List DictItem)
  | starred (line : Nat) (value : Expr)
  | call (line : Nat) (callee : Expr) (arguments : List Expr) (keywords : List Keyword)
      (sequence mapping : Option Expr)
  | field (line : Nat) (value : Expr) (name : String)
  | subscript (line : Nat) (value index : Expr)
  | slice (line : Nat) (lower upper step : Option Expr)
  | lambda (line : Nat) (parameters : List String) (body : Expr)
  | comprehension (line : Nat) (kind : ComprehensionKind) (element : Expr) (value : Option Expr)
      (clauses : List Clause)
  | conditional (line : Nat) (test body otherwise : Expr)
  | binary (line : Nat) (op : BinaryOp) (left right : Expr)
  | boolean (line : Nat) (op : BoolOp) (operands : List Expr)
  | unary (line : Nat) (op : UnaryOp) (operand : Expr)
  | compare (line : Nat) (left : Expr) (comparisons : List (Comparison × Expr))
  | named (line : Nat) (target value : Expr)

/-- An item of a dict display: an entry, or a mapping whose entries are added. -/
inductive DictItem where
  | entry (key value : Expr)
  | unpack (value : Expr)

/-- An argument that is passed by name. -/
inductive Keyword where
  | mk (name : String) (value : Expr)

/-- A clause of a comprehension with its conditions. -/
inductive Clause where
  | mk (target iterable : Expr) (conditions : List Expr)

end

instance : Inhabited Expr := ⟨.ellipsis 0⟩

namespace Expr

/-- The line that a node begins on. -/
def line : Expr → Nat
  | str line _ | bytes line _ | formatted line _ | number line _ | ellipsis line | name line _
  | tuple line _ | list line _ | set line _ | dict line _ | starred line _
  | call line _ _ _ _ _ | field line _ _ | subscript line _ _ | slice line _ _ _
  | lambda line _ _ | comprehension line _ _ _ _ | conditional line _ _ _ | binary line _ _ _
  | boolean line _ _ | unary line _ _ | compare line _ _ | named line _ _ => line

/-- The name of a kind of node, as messages write it. -/
def kindName : Expr → String
  | str .. => "Str"
  | bytes .. => "Bytes"
  | formatted .. => "JoinedStr"
  | number .. => "Num"
  | ellipsis .. => "Ellipsis"
  | name .. => "Name"
  | tuple .. => "Tuple"
  | list .. => "List"
  | set .. => "Set"
  | dict .. => "Dict"
  | starred .. => "Starred"
  | call .. => "Call"
  | field .. => "Attribute"
  | subscript .. => "Subscript"
  | slice .. => "Slice"
  | lambda .. => "Lambda"
  | comprehension _ kind .. => kind.name
  | conditional .. => "IfExp"
  | binary .. => "BinOp"
  | boolean .. => "BoolOp"
  | unary .. => "UnaryOp"
  | compare .. => "Compare"
  | named .. => "NamedExpr"

end Expr

end DepsManifest
