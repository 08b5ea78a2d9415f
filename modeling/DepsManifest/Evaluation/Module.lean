import DepsManifest.Evaluation.Expr
import DepsManifest.Scope
import DepsManifest.Statement.Parser
/-! # Executing modules

A module is executed statement by statement. Every statement must assign an expression to one name,
and no name may be assigned twice. The expressions cannot read what other statements assigned: each
is evaluated on its own. Only in the assignment of `vars` does a dict display show its entries to
the entries after them.

The first statement at fault ends the execution, and nothing is left of the scope before it. An
evaluation fault is at the line of the node that caused it; a fault of the statement as such, a name
assigned twice for one, at the line of the statement. That a name is assigned twice is seen only
after its expression has been evaluated.

`Tree` is what a text denotes in either reading; a tree of the wrong kind is a fault too.
-/
namespace DepsManifest

/-- Why a module cannot be executed. -/
inductive ExecutionFault where
  | unreadable (fault : SyntaxFault)
  | evaluation (fault : EvaluationFault)
  | unexpectedStatement (kind : String)
  | multipleTargets
  | targetNotName
  | notModule (kind : String)
  | duplicate (name : String)
  deriving DecidableEq

def ExecutionFault.message : ExecutionFault → String
  | .unreadable fault => fault.message
  | .evaluation fault => fault.message
  | .unexpectedStatement kind => "unexpected statement: " ++ kind
  | .multipleTargets => "invalid assignment: use exactly one target"
  | .targetNotName => "invalid assignment: target should be a name"
  | .notModule kind => "unexpected node: " ++ kind ++ " (not a module)"
  | .duplicate name => "invalid assignment: overrides var " ++ Text.quoted name

/-- The name whose value may refer to its own earlier entries. -/
def varsName : String := "vars"

namespace Statement

/-- The name and the expression of a statement that assigns to one name. -/
def assignment : Statement → Except ExecutionFault (String × Expr)
  | .assign _ [.name _ name] value => .ok (name, value)
  | .assign _ [_] _ => .error .targetNotName
  | .assign _ _ _ => .error .multipleTargets
  | s => .error (.unexpectedStatement s.kindName)

def execute (fs : Functions) (scope : Scope) (s : Statement) :
    Except (Located ExecutionFault) Scope :=
  match s.assignment with
  | .error fault => .error ⟨s.line, fault⟩
  | .ok (name, e) =>
    match e.value fs (name == varsName) with
    | .error fault => .error ⟨fault.line, .evaluation fault.cause⟩
    | .ok value =>
      match scope.bind name value (some s.line) with
      | .error _ => .error ⟨s.line, .duplicate name⟩
      | .ok scope => .ok scope

end Statement

namespace Module

/-- A scope after some statements. -/
def executeFrom (fs : Functions) (scope : Scope) :
    List Statement → Except (Located ExecutionFault) Scope
  | [] => .ok scope
  | s :: rest => do
    let scope ← s.execute fs scope
    executeFrom fs scope rest

def execute (fs : Functions) (m : Module) : Except (Located ExecutionFault) Scope :=
  executeFrom fs .empty m.body

/-- The scope of the module that a text denotes. -/
def executeText (fs : Functions) (text : String) : Except (Located ExecutionFault) Scope :=
  match Module.ofText text with
  | .ok m => m.execute fs
  | .error fault => .error ⟨fault.line, .unreadable fault.cause⟩

end Module

namespace Tree

/-- The value of a tree, which must be an expression. -/
def value (fs : Functions) (exposeVars : Bool) (t : Tree) :
    Except (Located EvaluationFault) Value :=
  match t with
  | .expression e => e.value fs exposeVars
  | .module _ => .error ⟨t.line, .unexpectedNode t.kindName⟩

def execute (fs : Functions) (t : Tree) : Except (Located ExecutionFault) Scope :=
  match t with
  | .module m => m.execute fs
  | .expression _ => .error ⟨t.line, .notModule t.kindName⟩

end Tree

end DepsManifest
