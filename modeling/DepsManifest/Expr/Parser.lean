import DepsManifest.Expr.Operation
import DepsManifest.Token.Layout
/-! # Reading expressions

A whole expression is a lambda expression, or conditions with an `if` or a `:=` after them.

`grammar n` reads the expressions that are nested less than `n` deep: its readers of nested
expressions are the productions over `grammar (n - 1)`. Every nested expression comes after a token
of the one around it, so the number of tokens is depth enough (`grammarFor`), and the fault of the
grammar that reads nothing is never reported.

The text of an expression has to be the expression alone, with blank lines after it at most. A list
of expressions without brackets is a tuple there, as it is on the right of an assignment.
-/
namespace DepsManifest

namespace Parse

namespace Grammar

variable (g : Grammar)

/-- A parameter of a lambda expression. Stars and defaults are read and dropped. -/
def parameter : Parse String := fun ts => do
  let ts := (skipOp? .star ts <|> skipOp? .doubleStar ts).getD ts
  let (n, ts) ← name ts
  match skipOp? .assign ts with
  | some ts =>
    let (_, ts) ← g.test ts
    return (n, ts)
  | none => return (n, ts)

/-- The parameters of a lambda expression. -/
def parameters : Parse (List String) := fun ts =>
  if atOp .colon ts then .ok ([], ts)
  else do
    let (first, ts) ← g.parameter ts
    let (rest, ts) ← afterCommas (atOp .colon) g.parameter ts
    return (first :: rest, ts)

def lambda (line : Nat) : Parse Expr := fun ts => do
  let (parameters, ts) ← g.parameters ts
  let ts ← expectOp .colon ts
  let (body, ts) ← g.test ts
  return (.lambda line parameters body, ts)

/-- A conditional expression after its first keyword. -/
def conditionalRest (body : Expr) : Parse Expr := fun ts => do
  let (test, ts) ← g.conditions ts
  let ts ← expectKeyword "else" ts
  let (otherwise, ts) ← g.test ts
  return (.conditional body.line test body otherwise, ts)

/-- An expression of any kind but a bare tuple. -/
def expression : Parse Expr := fun ts =>
  match skipKeyword? "lambda" ts with
  | some rest => g.lambda (current ts).line rest
  | none => do
    let (body, ts) ← g.conditions ts
    match skipKeyword? "if" ts with
    | some ts => g.conditionalRest body ts
    | none =>
      match skipOp? .walrus ts with
      | some ts =>
        let (value, ts) ← g.test ts
        return (.named body.line body value, ts)
      | none => return (body, ts)

/-- The grammar whose nested expressions are read by a given one. -/
def deeper : Grammar :=
  ⟨g.expression, g.conditions, g.negatedComparison, g.comparand, g.signedOperand⟩

end Grammar

/-- The grammar that reads nothing. -/
def noGrammar : Grammar :=
  ⟨fault .tooDeep, fault .tooDeep, fault .tooDeep, fault .tooDeep, fault .tooDeep⟩

/-- The grammar of expressions nested less than a given number deep. -/
def grammar : Nat → Grammar
  | 0 => noGrammar
  | n + 1 => (grammar n).deeper

/-- The grammar that is deep enough for some tokens. -/
def grammarFor (ts : List Token) : Grammar := grammar (ts.length + 1)

/-- The tokens after the ends of lines that come next. -/
def skipNewlines (ts : List Token) : List Token := ts.dropWhile (·.kind == .newline)

end Parse

/-- The expression that tokens denote. A bare list of expressions is a tuple. -/
def Expr.ofTokens (ts : List Token) : Except (Located SyntaxFault) Expr := do
  let (e, rest) ← (Parse.grammarFor ts).testList false ts
  let rest := Parse.skipNewlines rest
  if (Parse.current rest).kind = .endOfText then return e else Parse.unexpected rest

/-- The expression that a text denotes. -/
def Expr.ofText (text : String) : Except (Located SyntaxFault) Expr := do
  Expr.ofTokens (← Token.ofText text)

end DepsManifest
