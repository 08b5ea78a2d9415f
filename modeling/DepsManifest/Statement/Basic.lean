import DepsManifest.Expr.Basic
/-! # Statements and modules

A manifest is a module: a list of statements. Statements that begin with a keyword are kept by that
keyword only; one with a block takes its indented lines with it, and their tokens are passed over.
Of the others there are four: an assignment, possibly to several targets, an augmented one, an
annotated one, and an expression that stands alone.

Only an assignment can be executed. The others are kept so that the fault can name them and say on
which line they begin.
-/
namespace DepsManifest

inductive Statement where
  | assign (line : Nat) (targets : List Expr) (value : Expr)
  | augmented (line : Nat) (target : Expr) (op : BinaryOp) (value : Expr)
  | annotated (line : Nat) (target typeHint : Expr) (value : Option Expr)
  | expression (line : Nat) (value : Expr)
  | simple (line : Nat) (keyword : String)
  | compound (line : Nat) (keyword : String)
  deriving Inhabited

namespace Statement

/-- The line that a statement begins on. -/
def line : Statement → Nat
  | assign line _ _ | augmented line _ _ _ | annotated line _ _ _ | expression line _
  | simple line _ | compound line _ => line

/-- The name of a kind of statement, as messages write it. -/
def kindName : Statement → String
  | assign .. => "Assign"
  | augmented .. => "AugAssign"
  | annotated .. => "AnnAssign"
  | expression .. => "Expr"
  | simple _ keyword => "'" ++ keyword ++ "' statement"
  | compound _ keyword => "'" ++ keyword ++ "' statement"

end Statement

/-- The statements of a manifest. -/
structure Module where
  body : List Statement
  deriving Inhabited

/-- What a text can be read as. -/
inductive Tree where
  | module (module : Module)
  | expression (expression : Expr)

namespace Tree

def kindName : Tree → String
  | .module _ => "Module"
  | .expression _ => "Expression"

/-- The line that a tree begins on; the first for a module without statements. -/
def line : Tree → Nat
  | .module m => (m.body.head?.map (·.line)).getD 1
  | .expression e => e.line

end Tree

end DepsManifest
