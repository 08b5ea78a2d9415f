import DepsManifest.Expr.Parser
import DepsManifest.Statement.Basic
/-! # Reading statements

A logical line holds statements with semicolons between them. A statement with a block begins a
line; it takes every following line that is indented deeper than it, and the lines at its own
indentation that go on with the block.

A line that begins with neither of the two kinds of keywords begins with an expression, and what
follows tells which statement it is: equals signs, an operator with an equals sign, a colon, or
nothing. In a chain of equals signs the last expression is the value.

Of a statement without a block that begins with a keyword the rest is passed over, up to a semicolon
or the end of the line. What is passed over is still made of tokens, so brackets and literals in it
have to be complete.
-/
namespace DepsManifest

namespace Parse

/-- The keywords that begin a statement with a block. -/
def compoundKeywords : List String :=
  ["if", "for", "while", "def", "class", "with", "try", "async"]

/-- The keywords that begin a statement without a block. -/
def simpleKeywords : List String :=
  ["pass", "break", "continue", "return", "raise", "global", "nonlocal", "del", "import", "from",
    "assert", "yield", "await"]

/-- The keywords that go on with a block. -/
def continuingKeywords : List String := ["elif", "else", "except", "finally"]

/-- The operator of an augmented assignment. -/
def augmentedOp? : TokenKind → Option BinaryOp
  | .op .plusAssign => some .add
  | .op .minusAssign => some .subtract
  | .op .starAssign => some .multiply
  | .op .atAssign => some .matrixMultiply
  | .op .slashAssign => some .divide
  | .op .doubleSlashAssign => some .floorDivide
  | .op .percentAssign => some .modulo
  | .op .doubleStarAssign => some .power
  | .op .shiftLeftAssign => some .shiftLeft
  | .op .shiftRightAssign => some .shiftRight
  | .op .barAssign => some .bitOr
  | .op .caretAssign => some .bitXor
  | .op .ampersandAssign => some .bitAnd
  | _ => none

/-! ## Statements with a block -/

/-- Whether a token at the beginning of a line belongs to a block begun at a column. -/
def continuesBlock (column : Nat) (t : Token) : Bool :=
  t.kind != .endOfText
    && (column < t.column
      || (t.column == column && continuingKeywords.any fun keyword => t.kind == .name keyword))

/-- The tokens after a block begun at a column. -/
def afterBlock (column : Nat) : List Token → List Token
  | [] => []
  | t :: ts =>
    if t.kind = .endOfText then t :: ts
    else if t.kind = .newline then
      if continuesBlock column (current ts) then afterBlock column ts else ts
    else afterBlock column ts

/-- The keyword of the statement with a block that a kind of token begins. -/
def compoundKeyword? : TokenKind → Option String
  | .name n => if compoundKeywords.contains n then some n else none
  | .op .atSign => some "@"
  | _ => none

/-! ## Statements without a block -/

/-- The keyword of the statement that a kind of token begins. -/
def simpleKeyword? : TokenKind → Option String
  | .name n => if simpleKeywords.contains n then some n else none
  | _ => none

/-- Whether a token ends a statement within a line. -/
def endsStatement (t : Token) : Bool :=
  t.kind == .newline || t.kind == .endOfText || t.kind == .op .semicolon

/-- The rest of a statement that begins with an expression. -/
def statementAfter (g : Grammar) (line : Nat) (first : Expr) : Parse Statement := fun ts => do
  let (values, ts) ← many (afterOp .assign (g.testList true)) ts
  match values.getLast? with
  | some value => return (.assign line (first :: values.dropLast) value, ts)
  | none =>
    match augmentedOp? (current ts).kind with
    | some op =>
      let (value, ts) ← g.testList true ts.tail
      return (.augmented line first op value, ts)
    | none =>
      match skipOp? .colon ts with
      | none => return (.expression line first, ts)
      | some ts =>
        let (typeHint, ts) ← g.test ts
        match skipOp? .assign ts with
        | none => return (.annotated line first typeHint none, ts)
        | some ts =>
          let (value, ts) ← g.testList true ts
          return (.annotated line first typeHint (some value), ts)

def simpleStatement (g : Grammar) : Parse Statement := fun ts =>
  match simpleKeyword? (current ts).kind with
  | some keyword =>
    .ok (.simple (current ts).line keyword, ts.tail.dropWhile fun t => !endsStatement t)
  | none => do
    let (first, rest) ← g.testList true ts
    statementAfter g (current ts).line first rest

/-- The statements of a line, at most a given number. -/
def lineStatements (g : Grammar) : Nat → Parse (List Statement)
  | 0, ts => fault .tooDeep ts
  | n + 1, ts => do
    let (first, ts) ← simpleStatement g ts
    match skipOp? .semicolon ts with
    | none => return ([first], ts)
    | some ts =>
      if atLineEnd ts then return ([first], ts)
      else
        let (rest, ts) ← lineStatements g n ts
        return (first :: rest, ts)

/-- The statements that begin a module: a line of them, or one with its block. -/
def statementLine (g : Grammar) : Parse (List Statement) := fun ts =>
  match compoundKeyword? (current ts).kind with
  | some keyword =>
    .ok ([.compound (current ts).line keyword], afterBlock (current ts).column ts.tail)
  | none => do
    let (statements, ts) ← lineStatements g (ts.length + 1) ts
    if atLineEnd ts then return (statements, ts) else unexpected ts

/-- The statements of a module, from at most a given number of lines. -/
def statements (g : Grammar) : Nat → List Token → Except (Located SyntaxFault) (List Statement)
  | 0, ts => fault .tooDeep ts
  | n + 1, ts =>
    let ts := skipNewlines ts
    if (current ts).kind = .endOfText then .ok []
    else do
      let (first, ts) ← statementLine g ts
      let rest ← statements g n ts
      return first ++ rest

end Parse

/-- The module that tokens denote. -/
def Module.ofTokens (ts : List Token) : Except (Located SyntaxFault) Module := do
  return ⟨← Parse.statements (Parse.grammarFor ts) (ts.length + 1) ts⟩

/-- The module that a text denotes. -/
def Module.ofText (text : String) : Except (Located SyntaxFault) Module := do
  Module.ofTokens (← Token.ofText text)

end DepsManifest
