import DepsManifest.Evaluation.Environment
import DepsManifest.Evaluation.Functions
import DepsManifest.Expr.Parser
import DepsManifest.Operator.Arithmetic
/-! # Evaluating expressions

An expression denotes a value in an environment, given the functions it may call. What can be
evaluated is a closed list of forms: string literals, tuples, lists, dict displays, names, calls of
a named function with positional arguments, `+`, `%`, `not`, and `and` and `or` with two operands.
Everything else is a fault at its line.

Operands are evaluated from left to right, the right operand of `and` and `or` only if the left one
does not decide. Of several faults the first in this order is the one that is reported. A call whose
arguments are not regular, or whose function is unknown, is refused before any argument is
evaluated; an operator that cannot be evaluated is refused before its operands are.

A key of a dict has to be hashable: neither a list nor a dict, nor a tuple that contains one. A key
that occurs again keeps its place and takes the later value.
-/
namespace DepsManifest

/-- Why an expression has no value. -/
inductive EvaluationFault where
  | unreadable (fault : SyntaxFault)
  | unexpectedNode (kind : String)
  | unexpectedOperator (kind symbol : String)
  | dictUnpacking
  | unhashableKey (typeName : String)
  | unknownName (name : String) (available : List String)
  | calleeNotName
  | irregularArguments
  | unknownFunction (name : String)
  | operandCount (op : BoolOp)
  | operator (error : OperatorError)
  | call (text : String)
  deriving DecidableEq

def EvaluationFault.message : EvaluationFault → String
  | .unreadable fault => fault.message
  | .unexpectedNode kind => "unexpected node: " ++ kind
  | .unexpectedOperator kind symbol => "unexpected node: " ++ kind ++ " '" ++ symbol ++ "'"
  | .dictUnpacking => "unexpected node: dict unpacking '**'"
  | .unhashableKey typeName => "unhashable type: '" ++ typeName ++ "'"
  | .unknownName name available =>
    "invalid name " ++ Text.quoted name ++ "; available names: " ++ Text.quotedList available
  | .calleeNotName => "invalid call: func should be a name"
  | .irregularArguments => "invalid call: use only regular args"
  | .unknownFunction name =>
    "invalid call: " ++ Text.quoted name ++ " is not an allowed function"
  | .operandCount op => "invalid " ++ Text.quoted op.keyword ++ ": exactly 2 operands required"
  | .operator error => error.message
  | .call text => text

namespace Value

mutual

/-- The type of the first list or dict inside a dict key, which none may have. -/
def unhashable? : Value → Option String
  | .list _ => some "list"
  | .dict _ => some "dict"
  | .tuple items => firstUnhashable? items
  | _ => none

/-- The type of the first list or dict inside some values. -/
def firstUnhashable? : List Value → Option String
  | [] => none
  | item :: rest => unhashable? item <|> firstUnhashable? rest

end

end Value

/-- Whether a value as left operand decides, so that the right operand is not evaluated. -/
def BoolOp.decides : BoolOp → Value → Bool
  | .or, v => v.isTruthy
  | .and, v => !v.isTruthy

/-- The operation of a binary operator that can be evaluated. -/
def BinaryOp.operation? : BinaryOp → Option (Value → Value → Except OperatorError Value)
  | .add => some Value.add
  | .modulo => some Value.modulo
  | _ => none

namespace Expr

def isStarred : Expr → Bool
  | .starred _ _ => true
  | _ => false

/-- The result of an operation at a line. -/
def atLine {ε α : Type} (line : Nat) (cause : ε → EvaluationFault) :
    Except ε α → Except (Located EvaluationFault) α
  | .ok a => .ok a
  | .error e => .error ⟨line, cause e⟩

mutual

def evaluate (fs : Functions) (env : Environment) :
    Expr → Except (Located EvaluationFault) Value
  | .str _ text => .ok (.str text)
  | .tuple _ items => do return .tuple (← evaluateAll fs env items)
  | .list _ items => do return .list (← evaluateAll fs env items)
  | .dict line items => do return (← evaluateItems fs env line .empty items).toValue
  | .name line n =>
    match env.lookup n with
    | some v => .ok v
    | none => .error ⟨line, .unknownName n env.names⟩
  | .call line (.name _ n) arguments keywords sequence mapping =>
    if !keywords.isEmpty || sequence.isSome || mapping.isSome || arguments.any isStarred then
      .error ⟨line, .irregularArguments⟩
    else
      match fs.get? n with
      | none => .error ⟨line, .unknownFunction n⟩
      | some f => do
        let values ← evaluateAll fs env arguments
        atLine line .call (f values)
  | .call line _ _ _ _ _ => .error ⟨line, .calleeNotName⟩
  | .binary line op left right =>
    match op.operation? with
    | none => .error ⟨line, .unexpectedOperator "BinOp" op.symbol⟩
    | some operation => do
      let l ← evaluate fs env left
      let r ← evaluate fs env right
      atLine line .operator (operation l r)
  | .boolean _ op [left, right] => do
    let l ← evaluate fs env left
    if op.decides l then return l else evaluate fs env right
  | .boolean line op _ => .error ⟨line, .operandCount op⟩
  | .unary _ .not operand => do return (← evaluate fs env operand).not
  | .unary line op _ => .error ⟨line, .unexpectedOperator "UnaryOp" op.symbol⟩
  | e => .error ⟨e.line, .unexpectedNode e.kindName⟩

/-- The values of some expressions. -/
def evaluateAll (fs : Functions) (env : Environment) :
    List Expr → Except (Located EvaluationFault) (List Value)
  | [] => .ok []
  | e :: rest => do
    let v ← evaluate fs env e
    return v :: (← evaluateAll fs env rest)

/-- The dict of a display at a line, given the dict of the items so far. A key is evaluated before
its value, and in the environment that the items so far have left. -/
def evaluateItems (fs : Functions) (env : Environment) (line : Nat) (d : Dict) :
    List DictItem → Except (Located EvaluationFault) Dict
  | [] => .ok d
  | .unpack _ :: _ => .error ⟨line, .dictUnpacking⟩
  | .entry key value :: rest => do
    let k ← evaluate fs env key
    match k.unhashable? with
    | some typeName => .error ⟨key.line, .unhashableKey typeName⟩
    | none =>
      let v ← evaluate fs env value
      evaluateItems fs (env.afterEntry k v) line (d.insert k v) rest

end

/-- The value of an expression on its own. Where variables are exposed, a dict display shows its
entries to the entries after them. -/
def value (fs : Functions) (exposeVars : Bool) (e : Expr) :
    Except (Located EvaluationFault) Value :=
  e.evaluate fs (.fresh (if exposeVars then .selfReferential else .opaqueDisplays))

/-- The value of the expression that a text denotes. -/
def valueOfText (fs : Functions) (exposeVars : Bool) (text : String) :
    Except (Located EvaluationFault) Value :=
  match Expr.ofText text with
  | .ok e => e.value fs exposeVars
  | .error fault => .error ⟨fault.line, .unreadable fault.cause⟩

end Expr

end DepsManifest
